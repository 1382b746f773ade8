import GroundDB.HashMap.Runs
import GroundDB.PageStore.Concurrent

/-!
# The head lock of a read request

`HashMapGetBlockReplayList` takes the lock of the head it finds and returns with it when there is
something to replay; `HashMapUpdateReplayedLsn`, called with `holdHeadLock`, releases the lock of
the head that it finds by a search of its own.  Nothing but the length of the list ties the two
together, and between them other threads insert and move heads.

A request is followed step by step here, among any calls other threads make on the map, and the
calls it makes on head locks are recorded with the address of the head.  Since heads stay where they
are (`MapStep.headsStay`), the second search finds the head of the first, and the lock is released
exactly once (`head_lock_balance`).
-/

namespace GroundDB

open PtrHeap History Function

/-! ## A request among others -/

/-- A call on the lock of the head at an address. -/
abbrev HeadLockCall := ℕ × LockOp

/-- Calls on the lock of a head that was searched for. -/
def callsOn (iter : Ptr) (ops : List LockOp) : List HeadLockCall :=
  match iter with
  | none => []
  | some a => ops.map fun op => (a, op)

section Request

variable {Page : Type}

/-- A request in progress: the node, where the request stands, and its calls on head locks so far.
-/
structure Reading (Page : Type) where
  node : Node Page
  state : ReqState Page
  calls : List HeadLockCall

/-- A request comes in. -/
def Reading.start (node : Node Page) : Reading Page := ⟨node, .start, []⟩

variable (basePage : BufferTag → Page) (redo : BufferTag → ℕ → Page → Page) (req : ReadRequest)

/-- What the request does about the answer of the lookup. -/
def ReqState.ofAnswer (answer : ReplayAnswer) : ReqState Page :=
  match answer.result with
  | none => .finished (basePage req.tag)
  | some list =>
      if list.listLen = 0 then .wantsVersion list.replayedLsn
      else .holdsList list.replayedLsn list.toReplayList

/-- The next step of `ReadBufferCommon`: the lookup, the get, the put, the update or the delete. -/
def readBufferStep (s : Reading Page) : Option (Reading Page) :=
  match s.state with
  | .start => do
      let iter ← s.node.map.find req.key
      let found ← hashMapGetBlockReplayList s.node.map req.key req.lsn
      some { node := { s.node with map := found.1 }
             state := .ofAnswer basePage req found.2
             calls := s.calls ++ callsOn iter found.2.lockOps }
  | .wantsVersion v =>
      match s.node.kv req.tag v with
      | none => some { s with state := .failed v }
      | some targetPage => some { s with state := .finished targetPage }
  | .holdsList replayedLsn toReplayList =>
      match replayBase basePage s.node.kv req.tag replayedLsn with
      | none => some { s with state := .failed replayedLsn }
      | some base => some { s with state := .gotBase replayedLsn toReplayList base }
  | .gotBase replayedLsn toReplayList base => do
      let page := applyLsnList redo req.tag toReplayList base
      let lastLsn ← toReplayList[toReplayList.length - 1]?
      some { s with node := { s.node with kv := putPage s.node.kv req.tag lastLsn page }
                    state := .putDone replayedLsn lastLsn page }
  | .putDone replayedLsn lastLsn page => do
      let iter ← s.node.map.find req.key
      let updated ← hashMapUpdateReplayedLsn s.node.map req.key lastLsn true
      some { node := { s.node with map := updated.1 }
             state := .released replayedLsn page
             calls := s.calls ++ callsOn iter updated.2.2 }
  | .released replayedLsn page =>
      some { s with
        node := { s.node with kv :=
          if replayedLsn > 0 then deletePage s.node.kv req.tag replayedLsn else s.node.kv }
        state := .finished page }
  | .finished _ => none
  | .failed _ => none

/-- Who takes the next step: the request, or another thread that calls a function of the map. -/
inductive ReadingOp
  | own
  | other (op : MapOp)

/-- A step of the request, or of another thread; the latter may do anything to the store. -/
def ReadingStep (s : Reading Page) : ReadingOp → Reading Page → Prop
  | .own, s' => readBufferStep basePage redo req s = some s'
  | .other op, s' => MapStep s.node.map op s'.node.map ∧ s'.state = s.state ∧ s'.calls = s.calls

/-- The request has neither returned nor failed. -/
def ReqState.Running : ReqState Page → Prop
  | .finished _ => False
  | .failed _ => False
  | _ => True

/-- The end of a request, as `readBufferCommon` reports it. -/
def ReqState.ofOutcome : Outcome Page → ReqState Page
  | .done page => .finished page
  | .missing _ lsn => .failed lsn

/-- The number of the request that takes the step. -/
def ConcOp.number : ConcOp → ℕ
  | .lookup i | .get i | .put i | .update i | .delete i => i

/-- **A request among others takes its own steps.**  A step of `concStep` is the step that
`readBufferStep` gives the request, and no other request moves. -/
theorem concStep_readBufferStep {target : ℕ → ℕ} {s s' : Conc Page} {op : ConcOp}
    (h : concStep basePage redo req target s op = some s') (calls : List HeadLockCall) :
    (∃ calls', readBufferStep basePage redo { req with lsn := target op.number }
        ⟨s.node, s.reqs op.number, calls⟩ = some ⟨s'.node, s'.reqs op.number, calls'⟩) ∧
      ∀ j, j ≠ op.number → s'.reqs j = s.reqs j := by
  have hkey (lsn : ℕ) : ReadRequest.key { req with lsn := lsn } = req.key := rfl
  have htag (lsn : ℕ) : ReadRequest.tag { req with lsn := lsn } = req.tag := rfl
  cases op with
  | lookup i =>
      simp only [concStep] at h
      split at h
      next hreq hlock =>
        obtain ⟨⟨map, answer⟩, hcall, hs'⟩ := Option.bind_eq_some_iff.mp h
        obtain ⟨iter, hfind, -⟩ := Option.bind_eq_some_iff.mp hcall
        cases hs'
        refine ⟨⟨calls ++ callsOn iter answer.lockOps, ?_⟩, fun j hj => update_of_ne hj ..⟩
        cases hres : answer.result <;>
          simp [readBufferStep, ConcOp.number, hkey, htag, hreq, hfind, hcall, hres,
            ReqState.ofAnswer]
      next => cases h
  | get i =>
      simp only [concStep] at h
      split at h
      next v hreq =>
        cases h
        refine ⟨⟨calls, ?_⟩, fun j hj => update_of_ne hj ..⟩
        cases hget : s.node.kv req.tag v <;> simp [readBufferStep, ConcOp.number, htag, hreq, hget]
      next r l hreq =>
        cases h
        refine ⟨⟨calls, ?_⟩, fun j hj => update_of_ne hj ..⟩
        cases hbase : replayBase basePage s.node.kv req.tag r <;>
          simp [readBufferStep, ConcOp.number, htag, hreq, hbase]
      next => cases h
  | put i =>
      simp only [concStep] at h
      split at h
      next r l base hreq =>
        obtain ⟨last, hlast, hs'⟩ := Option.bind_eq_some_iff.mp h
        cases hs'
        refine ⟨⟨calls, ?_⟩, fun j hj => update_of_ne hj ..⟩
        rw [List.getLast?_eq_getElem?] at hlast
        simp [readBufferStep, ConcOp.number, htag, hreq, hlast]
      next => cases h
  | update i =>
      simp only [concStep] at h
      split at h
      next r last page hreq =>
        obtain ⟨⟨map, changed, lockOps⟩, hcall, hs'⟩ := Option.bind_eq_some_iff.mp h
        obtain ⟨iter, hfind, -⟩ := Option.bind_eq_some_iff.mp hcall
        cases hs'
        refine ⟨⟨calls ++ callsOn iter lockOps, ?_⟩, fun j hj => update_of_ne hj ..⟩
        simp [readBufferStep, ConcOp.number, hkey, hreq, hfind, hcall]
      next => cases h
  | delete i =>
      simp only [concStep] at h
      split at h
      next r page hreq =>
        cases h
        refine ⟨⟨calls, ?_⟩, fun j hj => update_of_ne hj ..⟩
        simp [readBufferStep, ConcOp.number, htag, hreq]
      next => cases h

end Request

/-! ## The lookup -/

/-- The lock is held with LSNs to replay, and released otherwise. -/
inductive ReplayAnswer.Locks (maxLsn : ℕ) : ReplayAnswer → Prop
  | notFound : Locks maxLsn .notFound
  | nothing (base : ℕ) : Locks maxLsn (.nothingToReplay base)
  | list {base last : ℕ} {lsns : List ℕ} (hlast : lsns.getLast? = some last) (hle : last ≤ maxLsn) :
      Locks maxLsn ⟨some ⟨base, lsns, lsns.length⟩, [.wrlock]⟩

lemma ReplayAnswer.Locks.listLen {maxLsn : ℕ} {answer : ReplayAnswer} (h : answer.Locks maxLsn) :
    ∀ list, answer.result = some list → list.listLen = list.toReplayList.length := by
  intro list hlist
  cases h with
  | notFound => cases hlist
  | nothing base => rw [← Option.some.inj hlist]; rfl
  | list hlast hle => rw [← Option.some.inj hlist]

lemma ReplayAnswer.Locks.held_iff {maxLsn : ℕ} {answer : ReplayAnswer}
    (h : answer.Locks maxLsn) : LockOp.held answer.lockOps = true ↔
      ∃ list, answer.result = some list ∧ list.toReplayList ≠ [] := by
  cases h with
  | notFound => simp [LockOp.held, ReplayAnswer.notFound]
  | nothing base => simp [LockOp.held, ReplayAnswer.nothingToReplay]
  | @list base last lsns hlast hle =>
      have hne : lsns ≠ [] := by
        rintro rfl
        cases hlast
      exact iff_of_true rfl ⟨_, rfl, hne⟩

lemma getBlockReplayList_locks {head : HashNodeHead} {eles : Heap HashNodeEle}
    {chain : EleNodes} (hinv : VersionListInv eles head chain) (targetLsn : ℕ) :
    ∃ answer, getBlockReplayList head eles targetLsn = some answer ∧
      answer.Locks head.maxLsn := by
  rcases lt_trichotomy head.replayedLsn targetLsn with hlt | heq | hgt
  · refine ⟨_, getBlockReplayList_newer hinv hlt, ?_⟩
    set lsns := between head.replayedLsn targetLsn (listLsns head chain) with hlsns
    cases hlast : lsns.getLast? with
    | none =>
        rw [List.getLast?_eq_none_iff.mp hlast]
        exact .nothing _
    | some last =>
        obtain ⟨hmem, -, -⟩ := mem_between.mp (List.mem_of_getLast? (hlsns ▸ hlast))
        have hlen : lsns.length ≠ 0 := by
          intro hzero
          rw [List.length_eq_zero_iff.mp hzero] at hlast
          cases hlast
        rw [ReplayAnswer.collected, if_neg hlen]
        exact .list hlast (hinv.le_maxLsn hmem)
  · exact ⟨_, heq ▸ getBlockReplayList_same head eles, .nothing _⟩
  · refine ⟨_, getBlockReplayList_older hinv hgt, ?_⟩
    split
    · exact .nothing _
    · exact .notFound

variable {m : HashMap} {chainOf : ℕ → EleNodes}

/-- **The lookup** finds no head and touches no lock, or locks the head of the key, and releases it
unless there is something to replay. -/
lemma lookup_locks (hm : MapInv m chainOf) (key : KeyType) (targetLsn : ℕ) :
    ∃ iter m' answer, m.find key = some iter ∧
      hashMapGetBlockReplayList m key targetLsn = some (m', answer) ∧ MapInv m' chainOf ∧
      ((iter = none ∧ answer = ⟨none, []⟩) ∨
        ∃ a head, iter = some a ∧ m'.heads.read a = some head ∧ head.key = key ∧
          answer.Locks head.maxLsn) := by
  have ⟨_, hs⟩ := hm
  rcases hs.find_cases key with ⟨hfind, _, _⟩ | ⟨a, full, hfind, hr, hkey, _⟩
  · exact ⟨none, m, ⟨none, []⟩, hfind, by simp [hashMapGetBlockReplayList, hfind], hm,
      .inl ⟨rfl, rfl⟩⟩
  · obtain ⟨m', _, hmove, hs', hcore, _⟩ := hs.moveToFront versionListInv_listProp hr
    obtain ⟨full', hr', hfc⟩ := hcore.symm.read hr
    obtain ⟨answer, hans, hlocks⟩ := getBlockReplayList_locks (hs'.lists a full' hr') targetLsn
    have hkey' : full'.key = key := by rw [core_fields hfc.symm, hkey]
    exact ⟨some a, m', answer, hfind,
      by simp [hashMapGetBlockReplayList, hfind, hmove, hr', hans], ⟨_, hs'⟩,
      .inr ⟨a, full', rfl, hr', hkey', hlocks⟩⟩

/-- **The update** finds the head again and releases its lock. -/
lemma update_unlocks (hm : MapInv m chainOf) {a lsn : ℕ} {head : HashNodeHead}
    (hr : m.heads.read a = some head) (hle : lsn ≤ head.maxLsn) :
    ∃ m' chainOf' result, m.find head.key = some (some a) ∧
      hashMapUpdateReplayedLsn m head.key lsn true = some (m', result, [.unlock]) ∧
      MapInv m' chainOf' ∧ HeadsStay m.heads m'.heads := by
  have ⟨_, hs⟩ := hm
  obtain ⟨p, hfind, hiff⟩ := hs.find head.key
  obtain rfl : p = some a := (hiff a).mpr ⟨head, hr, rfl⟩
  have hlist : pageList m chainOf head.key = some (head.core, chainOf a) :=
    hs.pageList_eq_some.mpr ⟨a, head, hr, rfl, rfl, rfl⟩
  obtain ⟨m', chainOf', hcall, hup⟩ := hashMapUpdateReplayedLsn_spec hm hlist hle true
  exact ⟨m', chainOf', _, hfind, hcall, hup.inv, hashMapUpdateReplayedLsn_headsStay hm hcall⟩

/-! ## Whole requests -/

/-- The lock of the key's head is held; its list reaches up to `lsn`. -/
def Holding (heads : Heap HashNodeHead) (key : KeyType) (lsn : ℕ) (calls : List HeadLockCall) :
    Prop :=
  ∃ a head, heads.read a = some head ∧ head.key = key ∧ lsn ≤ head.maxLsn ∧
    calls = [(a, .wrlock)]

/-- The lock of the key's head was taken and released, or no lock was touched. -/
def Balanced (heads : Heap HashNodeHead) (key : KeyType) (calls : List HeadLockCall) : Prop :=
  calls = [] ∨ ∃ a head, heads.read a = some head ∧ head.key = key ∧
    calls = [(a, .wrlock), (a, .unlock)]

section Requests

variable {Page : Type}

/-- The calls on head locks, by where the request stands. -/
def ReqState.CallsOk (heads : Heap HashNodeHead) (key : KeyType) (calls : List HeadLockCall) :
    ReqState Page → Prop
  | .start => calls = []
  | .wantsVersion _ => Balanced heads key calls
  | .holdsList _ toReplayList =>
      ∃ last, toReplayList.getLast? = some last ∧ Holding heads key last calls
  | .gotBase _ toReplayList _ =>
      ∃ last, toReplayList.getLast? = some last ∧ Holding heads key last calls
  | .putDone _ lastLsn _ => Holding heads key lastLsn calls
  | .released _ _ => Balanced heads key calls
  | .finished _ => Balanced heads key calls
  | .failed _ => Balanced heads key calls ∨ ∃ lsn, Holding heads key lsn calls

/-- The map is well formed and the calls are as they should be. -/
def Reading.Ok (key : KeyType) (s : Reading Page) : Prop :=
  (∃ chainOf, MapInv s.node.map chainOf) ∧ s.state.CallsOk s.node.map.heads key s.calls

variable {heads heads' : Heap HashNodeHead} {key : KeyType} {calls : List HeadLockCall}

lemma Holding.stays {lsn : ℕ} (h : Holding heads key lsn calls) (hs : HeadsStay heads heads') :
    Holding heads' key lsn calls := by
  obtain ⟨a, head, hr, hkey, hle, hcalls⟩ := h
  obtain ⟨head', hr', hkey', hle'⟩ := hs a head hr
  exact ⟨a, head', hr', hkey'.trans hkey, hle.trans hle', hcalls⟩

lemma Balanced.stays (h : Balanced heads key calls) (hs : HeadsStay heads heads') :
    Balanced heads' key calls := by
  rcases h with hnil | ⟨a, head, hr, hkey, hcalls⟩
  · exact .inl hnil
  · obtain ⟨head', hr', hkey', -⟩ := hs a head hr
    exact .inr ⟨a, head', hr', hkey'.trans hkey, hcalls⟩

lemma ReqState.CallsOk.stays {state : ReqState Page} (h : state.CallsOk heads key calls)
    (hs : HeadsStay heads heads') : state.CallsOk heads' key calls := by
  cases state with
  | start => exact h
  | wantsVersion v => exact Balanced.stays h hs
  | holdsList r l =>
      obtain ⟨last, hlast, hhold⟩ := h
      exact ⟨last, hlast, hhold.stays hs⟩
  | gotBase r l base =>
      obtain ⟨last, hlast, hhold⟩ := h
      exact ⟨last, hlast, hhold.stays hs⟩
  | putDone r last page => exact Holding.stays h hs
  | released r page => exact Balanced.stays h hs
  | finished page => exact Balanced.stays h hs
  | failed v =>
      rcases h with hbal | ⟨lsn, hhold⟩
      · exact .inl (hbal.stays hs)
      · exact .inr ⟨lsn, hhold.stays hs⟩

variable (basePage : BufferTag → Page) (redo : BufferTag → ℕ → Page → Page) (req : ReadRequest)
  {s s' : Reading Page}

/-- **A step of the request** that is still running succeeds, and keeps the calls right. -/
lemma Reading.Ok.own (h : s.Ok req.key) (hrun : s.state.Running) :
    ∃ s', readBufferStep basePage redo req s = some s' ∧ s'.Ok req.key := by
  obtain ⟨node, state, calls⟩ := s
  obtain ⟨⟨chainOf, hm⟩, hok⟩ := h
  cases state with
  | start =>
      obtain rfl : calls = [] := hok
      obtain ⟨iter, m', answer, hfind, hcall, hm', hlocks⟩ := lookup_locks hm req.key req.lsn
      refine ⟨⟨{ node with map := m' }, .ofAnswer basePage req answer,
        callsOn iter answer.lockOps⟩, by simp [readBufferStep, hfind, hcall], ⟨chainOf, hm'⟩, ?_⟩
      rcases hlocks with ⟨rfl, rfl⟩ | ⟨a, head, rfl, hr, hkey, hlocks⟩
      · exact .inl rfl
      · cases hlocks with
        | notFound => exact .inr ⟨a, head, hr, hkey, rfl⟩
        | nothing base => exact .inr ⟨a, head, hr, hkey, rfl⟩
        | @list base last lsns hlast hle =>
            have hlen : lsns.length ≠ 0 := by
              intro hzero
              rw [List.length_eq_zero_iff.mp hzero] at hlast
              cases hlast
            simp only [ReqState.ofAnswer, hlen, if_false]
            exact ⟨last, hlast, a, head, hr, hkey, hle, rfl⟩
  | wantsVersion v =>
      cases hget : node.kv req.tag v with
      | none =>
          exact ⟨⟨node, .failed v, calls⟩, by simp [readBufferStep, hget], ⟨chainOf, hm⟩,
            .inl hok⟩
      | some page =>
          exact ⟨⟨node, .finished page, calls⟩, by simp [readBufferStep, hget], ⟨chainOf, hm⟩,
            hok⟩
  | holdsList r l =>
      cases hbase : replayBase basePage node.kv req.tag r with
      | none =>
          obtain ⟨last, -, hhold⟩ := hok
          exact ⟨⟨node, .failed r, calls⟩, by simp [readBufferStep, hbase], ⟨chainOf, hm⟩,
            .inr ⟨last, hhold⟩⟩
      | some base =>
          exact ⟨⟨node, .gotBase r l base, calls⟩, by simp [readBufferStep, hbase],
            ⟨chainOf, hm⟩, hok⟩
  | gotBase r l base =>
      obtain ⟨last, hlast, hhold⟩ := hok
      have hitem : l[l.length - 1]? = some last := by rw [← List.getLast?_eq_getElem?, hlast]
      have hput : readBufferStep basePage redo req ⟨node, .gotBase r l base, calls⟩ =
          some ⟨{ node with kv := putPage node.kv req.tag last (applyLsnList redo req.tag l base) },
            .putDone r last (applyLsnList redo req.tag l base), calls⟩ := by
        simp [readBufferStep, hitem]
      exact ⟨_, hput, ⟨chainOf, hm⟩, hhold⟩
  | putDone r last page =>
      -- the head is where the lookup found it
      obtain ⟨a, head, hr, hkey, hle, hcalls⟩ := hok
      obtain ⟨m', chainOf', result, hfind, hcall, hm', hstay⟩ := update_unlocks hm hr hle
      obtain ⟨head', hr', hkey', -⟩ := hstay a head hr
      rw [hkey] at hfind hcall
      have hupdate : readBufferStep basePage redo req ⟨node, .putDone r last page, calls⟩ =
          some ⟨{ node with map := m' }, .released r page, calls ++ [(a, .unlock)]⟩ := by
        simp [readBufferStep, hfind, hcall, callsOn]
      refine ⟨_, hupdate, ⟨chainOf', hm'⟩, .inr ⟨a, head', hr', hkey'.trans hkey, ?_⟩⟩
      exact congrArg (· ++ [(a, LockOp.unlock)]) hcalls
  | released r page => exact ⟨_, rfl, ⟨chainOf, hm⟩, hok⟩
  | finished page => exact hrun.elim
  | failed v => exact hrun.elim

/-- Left alone, a request takes the steps of `readBufferCommon`. -/
theorem readBufferCommon_steps {node node' : Node Page} {outcome : Outcome Page}
    {chainOf : ℕ → EleNodes} (hm : MapInv node.map chainOf)
    (h : readBufferCommon basePage redo node req = some (node', outcome)) :
    ∃ k calls, Lts.Run (ReadingStep basePage redo req) (Reading.start node)
      (List.replicate k .own) ⟨node', .ofOutcome outcome, calls⟩ := by
  obtain ⟨iter, map, answer, hfind, hcall, -, hlocks⟩ := lookup_locks hm req.key req.lsn
  have hlen : ∀ list, answer.result = some list → list.listLen = list.toReplayList.length := by
    rcases hlocks with ⟨-, rfl⟩ | ⟨a, head, -, -, -, hlocks⟩
    · simp
    · exact hlocks.listLen
  rw [readBufferCommon, hcall, Option.bind_eq_bind, Option.bind_some] at h
  have hlookup : ReadingStep basePage redo req (Reading.start node) .own
      ⟨{ node with map := map }, .ofAnswer basePage req answer, callsOn iter answer.lockOps⟩ := by
    simp [ReadingStep, readBufferStep, Reading.start, hfind, hcall]
  generalize callsOn iter answer.lockOps = calls at hlookup
  cases hres : answer.result with
  | none =>
      simp only [hres, Option.some.injEq, Prod.mk.injEq] at h
      obtain ⟨rfl, rfl⟩ := h
      rw [ReqState.ofAnswer, hres] at hlookup
      exact ⟨1, calls, .cons hlookup .nil⟩
  | some list =>
      rw [ReqState.ofAnswer, hres] at hlookup
      simp only [hres] at h
      by_cases hzero : list.listLen = 0
      · rw [if_pos hzero] at h
        simp only [hzero, if_true] at hlookup
        refine ⟨2, calls, .cons hlookup (.cons ?_ .nil)⟩
        cases hget : node.kv req.tag list.replayedLsn with
        | none =>
            simp only [hget, Option.some.injEq, Prod.mk.injEq] at h
            obtain ⟨rfl, rfl⟩ := h
            simp [ReadingStep, readBufferStep, hget, ReqState.ofOutcome]
        | some page =>
            simp only [hget, Option.some.injEq, Prod.mk.injEq] at h
            obtain ⟨rfl, rfl⟩ := h
            simp [ReadingStep, readBufferStep, hget, ReqState.ofOutcome]
      · rw [if_neg hzero] at h
        simp only [hzero, if_false] at hlookup
        cases hbase : replayBase basePage node.kv req.tag list.replayedLsn with
        | none =>
            simp only [hbase, Option.some.injEq, Prod.mk.injEq] at h
            obtain ⟨rfl, rfl⟩ := h
            refine ⟨2, calls, .cons hlookup (.cons ?_ .nil)⟩
            simp [ReadingStep, readBufferStep, hbase, ReqState.ofOutcome]
        | some base =>
            simp only [hbase] at h
            obtain ⟨lastLsn, hlast, h⟩ := Option.bind_eq_some_iff.mp h
            obtain ⟨⟨map', result, lockOps⟩, hupd, h⟩ := Option.bind_eq_some_iff.mp h
            obtain ⟨iter', hfind', _⟩ := Option.bind_eq_some_iff.mp hupd
            simp only [Option.some.injEq, Prod.mk.injEq] at h
            obtain ⟨rfl, rfl⟩ := h
            rw [hlen list hres] at hlast
            set page := applyLsnList redo req.tag list.toReplayList base with hpage
            set kv := putPage node.kv req.tag lastLsn page with hkv
            have hget : ReadingStep basePage redo req
                ⟨{ node with map := map }, .holdsList list.replayedLsn list.toReplayList, calls⟩
                .own ⟨{ node with map := map },
                  .gotBase list.replayedLsn list.toReplayList base, calls⟩ := by
              simp [ReadingStep, readBufferStep, hbase]
            have hput : ReadingStep basePage redo req
                ⟨{ node with map := map }, .gotBase list.replayedLsn list.toReplayList base, calls⟩
                .own ⟨⟨map, kv⟩, .putDone list.replayedLsn lastLsn page, calls⟩ := by
              simp [ReadingStep, readBufferStep, hlast, hkv, hpage]
            have hupdate : ReadingStep basePage redo req
                ⟨⟨map, kv⟩, .putDone list.replayedLsn lastLsn page, calls⟩ .own
                ⟨⟨map', kv⟩, .released list.replayedLsn page, calls ++ callsOn iter' lockOps⟩ := by
              simp [ReadingStep, readBufferStep, hfind', hupd]
            exact ⟨5, _, .cons hlookup (.cons hget (.cons hput (.cons hupdate
              (.cons (show readBufferStep basePage redo req _ = some _ from rfl) .nil))))⟩

/-- A request that replays one record, taken at once and step by step. -/
theorem readBufferCommon_steps_replay :
    ∃ (node node' : Node (List ℕ)) (outcome : Outcome (List ℕ)),
      readBufferCommon (fun _ => []) logRedo node (readSeven 15) =
        some (node', outcome) ∧
      ∃ k calls, Lts.Run (ReadingStep (fun _ => []) logRedo (readSeven 15))
        (Reading.start node) (List.replicate k .own) ⟨node', .ofOutcome outcome, calls⟩ := by
  obtain ⟨m, hmap, node', outcome, hread⟩ : ∃ m,
      Lts.Run MapStep (hashMapInit 1023 (by decide))
        [.insertKey (blockKey 7) 10 0 true] m ∧
      ∃ node' outcome, readBufferCommon (fun _ => []) logRedo (⟨m, fun _ _ => none⟩ : Node (List ℕ))
        (readSeven 15) = some (node', outcome) :=
    ⟨_, .cons ⟨show 1 ≤ 10 by decide, rfl⟩ .nil, _, _, rfl⟩
  obtain ⟨chainOf, hm⟩ := reachable_inv hmap
  exact ⟨_, node', outcome, hread, readBufferCommon_steps (fun _ => []) logRedo _ hm hread⟩

lemma Reading.Ok.step {op : ReadingOp} (h : s.Ok req.key)
    (hs : ReadingStep basePage redo req s op s') : s'.Ok req.key := by
  cases op with
  | own =>
      by_cases hrun : s.state.Running
      · obtain ⟨s'', hstep, hok⟩ := h.own basePage redo req hrun
        obtain rfl : s'' = s' := Option.some.inj (hstep.symm.trans hs)
        exact hok
      · -- nothing is left to do
        obtain ⟨node, state, calls⟩ := s
        cases state with
        | finished page => cases hs
        | failed v => cases hs
        | _ => exact absurd trivial hrun
  | other op =>
      obtain ⟨hmap, hstate, hcalls⟩ := hs
      obtain ⟨⟨chainOf, hm⟩, hok⟩ := h
      obtain ⟨chainOf', hm', -⟩ := hmap.inv hm
      refine ⟨⟨chainOf', hm'⟩, ?_⟩
      rw [hstate, hcalls]
      exact hok.stays (hmap.headsStay hm)

lemma Reading.Ok.mem_calls (h : s.Ok req.key) : ∀ call ∈ s.calls,
    ∃ head, s.node.map.heads.read call.1 = some head ∧ head.key = req.key := by
  have hbal : Balanced s.node.map.heads req.key s.calls → ∀ call ∈ s.calls,
      ∃ head, s.node.map.heads.read call.1 = some head ∧ head.key = req.key := by
    rintro (hnil | ⟨a, head, hr, hkey, hcalls⟩) call hcall
    · rw [hnil] at hcall
      cases hcall
    · obtain rfl | rfl : call = (a, .wrlock) ∨ call = (a, .unlock) := by
        simpa [hcalls] using hcall
      all_goals exact ⟨head, hr, hkey⟩
  have hhold : ∀ lsn, Holding s.node.map.heads req.key lsn s.calls → ∀ call ∈ s.calls,
      ∃ head, s.node.map.heads.read call.1 = some head ∧ head.key = req.key := by
    rintro lsn ⟨a, head, hr, hkey, -, hcalls⟩ call hcall
    obtain rfl : call = (a, .wrlock) := by simpa [hcalls] using hcall
    exact ⟨head, hr, hkey⟩
  obtain ⟨-, hok⟩ := h
  cases hstate : s.state with
  | start =>
      rw [hstate] at hok
      exact hbal (.inl hok)
  | wantsVersion v | released v page | finished page =>
      rw [hstate] at hok
      exact hbal hok
  | holdsList r l | gotBase r l base =>
      rw [hstate] at hok
      obtain ⟨last, -, hh⟩ := hok
      exact hhold last hh
  | putDone r last page =>
      rw [hstate] at hok
      exact hhold last hok
  | failed v =>
      rw [hstate] at hok
      exact hok.elim hbal fun ⟨lsn, hh⟩ => hhold lsn hh

/-- **The head lock is balanced.**  In every map a run reaches, a request, whatever other threads do
to the map while it is under way,

* calls the lock of no head but that of the page it asks for,
* has called none, or has taken it once and released it once, when it returns,
* and is never stuck: until it returns or its version turns out to be missing, it has a next step.

The replay-list lookup returns with the lock held exactly when its list is not empty. -/
theorem head_lock_balance {n : ℕ} {hn : 0 < n} {tr : List MapOp} {node : Node Page}
    (hmap : Lts.Run MapStep (hashMapInit n hn) tr node.map) :
    (∀ ops s, Lts.Run (ReadingStep basePage redo req) (Reading.start node) ops s →
      (∀ call ∈ s.calls, ∃ head, s.node.map.heads.read call.1 = some head ∧
        head.key = req.key) ∧
      (∀ page, s.state = .finished page →
        s.calls = [] ∨ ∃ a, s.calls = [(a, .wrlock), (a, .unlock)]) ∧
      (s.state.Running → ∃ s', ReadingStep basePage redo req s .own s')) ∧
    ∀ targetLsn, ∃ m' answer,
      hashMapGetBlockReplayList node.map req.key targetLsn = some (m', answer) ∧
      (LockOp.held answer.lockOps = true ↔
        ∃ list, answer.result = some list ∧ list.toReplayList ≠ []) ∧
      ∀ list, answer.result = some list → list.listLen = list.toReplayList.length := by
  obtain ⟨chainOf, hm⟩ := reachable_inv hmap
  refine ⟨fun ops s hrun => ?_, fun targetLsn => ?_⟩
  · have hstart : (Reading.start node).Ok req.key := ⟨⟨chainOf, hm⟩, rfl⟩
    have hok : s.Ok req.key :=
      hrun.invariant hstart fun _ _ _ h hs => h.step basePage redo req hs
    refine ⟨hok.mem_calls req, fun page hdone => ?_, fun hrunning => ?_⟩
    · have hbal := hok.2
      rw [hdone] at hbal
      rcases hbal with hnil | ⟨a, head, -, -, hcalls⟩
      · exact .inl hnil
      · exact .inr ⟨a, hcalls⟩
    · obtain ⟨s', hstep, -⟩ := hok.own basePage redo req hrunning
      exact ⟨s', hstep⟩
  · obtain ⟨iter, m', answer, -, hcall, -, hlocks⟩ := lookup_locks hm req.key targetLsn
    refine ⟨m', answer, hcall, ?_⟩
    rcases hlocks with ⟨-, rfl⟩ | ⟨a, head, -, -, -, hlocks⟩
    · exact ⟨by simp [LockOp.held], by simp⟩
    · exact ⟨hlocks.held_iff, hlocks.listLen⟩

/-- A request that replays one record takes the lock of its page's head and releases it. -/
theorem head_lock_balance_replay :
    ∃ (node : Node (List ℕ)) (s : Reading (List ℕ)),
      Lts.Run MapStep (hashMapInit 1023 (by decide))
        [.insertKey (blockKey 7) 10 0 true] node.map ∧
      Lts.Run (ReadingStep (fun _ => []) logRedo (readSeven 15))
        (Reading.start node) [.own, .own, .own, .own, .own] s ∧
      s.state = .finished [10] ∧ ∃ a, s.calls = [(a, .wrlock), (a, .unlock)] := by
  have own {s s' : Reading (List ℕ)}
      (h : readBufferStep (fun _ => []) logRedo (readSeven 15) s = some s') :
      ReadingStep (fun _ => []) logRedo (readSeven 15) s .own s' := h
  obtain ⟨m, hmap, s, hrun, hdone, hne⟩ : ∃ m,
      Lts.Run MapStep (hashMapInit 1023 (by decide))
        [.insertKey (blockKey 7) 10 0 true] m ∧
      ∃ s : Reading (List ℕ),
        Lts.Run (ReadingStep (fun _ => []) logRedo (readSeven 15))
          (Reading.start ⟨m, fun _ _ => none⟩) [.own, .own, .own, .own, .own] s ∧
        s.state = .finished [10] ∧ s.calls ≠ [] :=
    ⟨_, .cons ⟨show 1 ≤ 10 by decide, rfl⟩ .nil,
      _, .cons (own rfl) (.cons (own rfl) (.cons (own rfl) (.cons (own rfl)
        (.cons (own rfl) .nil)))), rfl, List.cons_ne_nil _ _⟩
  have hnode : Lts.Run MapStep (hashMapInit 1023 (by decide))
      [.insertKey (blockKey 7) 10 0 true]
      (⟨m, fun _ _ => none⟩ : Node (List ℕ)).map := hmap
  obtain ⟨-, hcalls, -⟩ := (head_lock_balance (fun _ => []) logRedo
    (readSeven 15) hnode).1 _ s hrun
  exact ⟨⟨m, fun _ _ => none⟩, s, hmap, hrun, hdone, (hcalls [10] hdone).resolve_left hne⟩

end Requests

end GroundDB
