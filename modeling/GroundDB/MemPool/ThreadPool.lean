import GroundDB.Lib.Heap
import GroundDB.MemPool.Requests

/-!
# The thread pool

A worker of the pool polls a bounded queue of its own and calls the tasks it finds there.
`JoinThreads` raises a flag, waits for the workers and deletes the queues.  Workers and the thread
that uses the pool interleave at every access to the flags and the queues; that thread starts the
workers, schedules tasks and joins, over and over.

`Schedule` does not look at the answer of `push`, so a task for a full queue is dropped.
`JoinThreads` leaves the pointers to the deleted queues in `queue_pool`; workers that are started
later find their queues at the front of it, among these.  Apart from that, tasks run once and in
order, and all of them have run when `JoinThreads` returns (`thread_pool_delivery`).
-/

namespace GroundDB

open PtrHeap Function

variable {τ : Type}

/-! ## The pool -/

/-- Where a worker is in the loop of `BGThread`: before an access to a flag or to its queue, before
the call of a task, or at the end. -/
inductive BGPoint (τ : Type)
  | loadExit
  | pollEmpty
  | loadExitAgain
  | loadWait
  | testEmpty
  | front
  | pop (item : τ)
  | call (item : τ)
  | returned

/-- A thread that runs `BGThread`. -/
structure BGThread (τ : Type) where
  threadId : ℕ
  taskQueue : ℕ
  point : BGPoint τ

/-- Where the thread is that uses the pool: there are no workers, or there are, or it is in
`JoinThreads` before or after the store to `exit_all_threads_`. -/
inductive PoolUser
  | stopped
  | started
  | storing
  | joining
deriving DecidableEq, Repr

/-- A `ThreadPool`, the queues, what the workers have run, and where the user is. -/
structure ThreadPool (τ : Type) where
  bgthreads : List (BGThread τ)
  queuePool : List ℕ
  totalThreadsLimit : ℤ
  exitAllThreads : Bool
  waitForJobsToComplete : Bool
  queues : Heap (List τ)
  ran : ℕ → List τ
  user : PoolUser

/-- Calls of the user, parts of `JoinThreads`, and a step of a worker. -/
inductive PoolAct (τ : Type)
  | setBackgroundThreads (num : ℤ)
  | schedule (item : τ) (threadId : ℕ)
  | joinThreads
  | storeExit
  | joined
  | worker (k : ℕ)

namespace ThreadPool

/-- A pool that was just constructed.  Two members are not initialised. -/
def start (limit : ℤ) (wait : Bool) (queues : Heap (List τ)) : ThreadPool τ :=
  ⟨[], [], limit, false, wait, queues, fun _ => [], .stopped⟩

/-- A new queue for each worker, at the end of `queue_pool`. -/
def newQueues : ℕ → Heap (List τ) → List ℕ → Heap (List τ) × List ℕ
  | 0, queues, queuePool => (queues, queuePool)
  | n + 1, queues, queuePool =>
      newQueues n (queues.alloc []).1 (queuePool ++ [(queues.alloc []).2])

/-- `StartBGThreads`.  A thread takes its queue from `queue_pool`, by its number. -/
def startBGThreads (s : ThreadPool τ) : ThreadPool τ :=
  let made := newQueues s.totalThreadsLimit.toNat s.queues s.queuePool
  { s with
    queues := made.1
    queuePool := made.2
    bgthreads := s.bgthreads ++ (List.range s.totalThreadsLimit.toNat).map fun i =>
      ⟨i, made.2.getD i 0, .loadExit⟩ }

/-- `SetBackgroundThreads`. -/
def setBackgroundThreads (s : ThreadPool τ) (num : ℤ) : ThreadPool τ :=
  startBGThreads { s with totalThreadsLimit := num, user := .started }

/-- `Schedule`. -/
def schedule (s : ThreadPool τ) (item : τ) (threadId : ℕ) : Option (ThreadPool τ) :=
  if s.exitAllThreads then some s
  else do
    let queue ← s.queuePool[threadId]?
    let items ← s.queues.read queue
    -- what `push` returns is not used
    if items.length < receiveOutstandingSize then
      (s.queues.write queue (items ++ [item])).map fun queues => { s with queues := queues }
    else some s

/-- `JoinThreads`, to the store to `wait_for_jobs_to_complete_`. -/
def joinThreads (s : ThreadPool τ) (wait : Bool) : Option (ThreadPool τ) :=
  if s.exitAllThreads then none
  else some { s with waitForJobsToComplete := wait, user := .storing }

/-- `JoinThreads`, the store to `exit_all_threads_`. -/
def storeExit (s : ThreadPool τ) : ThreadPool τ :=
  { s with exitAllThreads := true, totalThreadsLimit := 0, user := .joining }

/-- `JoinThreads`, when all threads are joined. -/
def joined (s : ThreadPool τ) : Option (ThreadPool τ) :=
  (s.queuePool.foldlM Heap.free s.queues).map fun queues =>
    { s with
      bgthreads := []
      queues := queues
      exitAllThreads := false
      waitForJobsToComplete := false
      user := .stopped }

/-- `BGThread`, to the next access.  `none` stands for an access to a queue that was deleted, and
for `front` of an empty queue. -/
def bgThread (s : ThreadPool τ) (th : BGThread τ) : Option (ThreadPool τ × BGPoint τ) :=
  match th.point with
  | .loadExit => some (s, if s.exitAllThreads then .loadExitAgain else .pollEmpty)
  | .pollEmpty =>
      (s.queues.read th.taskQueue).map fun items =>
        (s, if items.isEmpty then .loadExit else .loadExitAgain)
  | .loadExitAgain => some (s, if s.exitAllThreads then .loadWait else .front)
  | .loadWait => some (s, if s.waitForJobsToComplete then .testEmpty else .returned)
  | .testEmpty =>
      (s.queues.read th.taskQueue).map fun items =>
        (s, if items.isEmpty then .returned else .front)
  | .front =>
      ((s.queues.read th.taskQueue).bind List.head?).map fun item => (s, .pop item)
  | .pop item => do
      let items ← s.queues.read th.taskQueue
      (s.queues.write th.taskQueue items.tail).map fun queues =>
        ({ s with queues := queues }, .call item)
  | .call item =>
      some ({ s with ran := update s.ran th.threadId (s.ran th.threadId ++ [item]) },
        .loadExit)
  | .returned => some (s, .returned)

/-- A step of a worker. -/
def worker (s : ThreadPool τ) (k : ℕ) : Option (ThreadPool τ) := do
  let th ← s.bgthreads[k]?
  let r ← s.bgThread th
  some { r.1 with bgthreads := s.bgthreads.set k { th with point := r.2 } }

/-- The action is what some thread does next.  The user starts workers when there are none,
schedules tasks for workers that exist, and joins with waiting. -/
def Enabled (s : ThreadPool τ) : PoolAct τ → Prop
  | .setBackgroundThreads _ => s.user = .stopped
  | .schedule _ threadId => s.user = .started ∧ (threadId : ℤ) < s.totalThreadsLimit
  | .joinThreads => s.user = .started
  | .storeExit => s.user = .storing
  | .joined => s.user = .joining ∧ ∀ th ∈ s.bgthreads, th.point = .returned
  | .worker k => ∃ th, s.bgthreads[k]? = some th ∧ th.point ≠ .returned

/-- What an action does. -/
def act (s : ThreadPool τ) : PoolAct τ → Option (ThreadPool τ)
  | .setBackgroundThreads num => some (s.setBackgroundThreads num)
  | .schedule item threadId => s.schedule item threadId
  | .joinThreads => s.joinThreads true
  | .storeExit => some s.storeExit
  | .joined => s.joined
  | .worker k => s.worker k

end ThreadPool

/-- The steps of the pool; nothing is known after an access to a deleted queue. -/
def PoolStep (x : Option (ThreadPool τ)) (a : PoolAct τ) (y : Option (ThreadPool τ)) : Prop :=
  ∃ s, x = some s ∧ s.Enabled a ∧ s.act a = y

/-- The tasks scheduled for a worker, in order. -/
def scheduledTo (k : ℕ) (tr : List (PoolAct τ)) : List τ :=
  tr.filterMap fun
    | .schedule item threadId => if threadId = k then some item else none
    | _ => none

/-- The condition on a step: a task is scheduled when there is room in the queue, and workers are
started when no queues were left behind. -/
def ThreadPool.Accepts (s : ThreadPool τ) : PoolAct τ → Prop
  | .setBackgroundThreads _ => s.queuePool = []
  | .schedule _ threadId => ∀ queue ∈ s.queuePool[threadId]?, ∀ items ∈ s.queues.read queue,
      items.length < receiveOutstandingSize
  | _ => True

/-! ## A worker -/

namespace BGPoint

/-- The task that was taken off the queue and is not run yet. -/
def inHand : BGPoint τ → List τ
  | .call item => [item]
  | _ => []

/-- What holds of the queue at the points of the loop. -/
def Fits (joining : Prop) (items : List τ) : BGPoint τ → Prop
  | .loadExitAgain => joining ∨ items ≠ []
  | .loadWait | .testEmpty => joining
  | .front => items ≠ []
  | .pop item => items.head? = some item
  | .returned => joining ∧ items = []
  | _ => True

lemma Fits.mono {joining joining' : Prop} {items : List τ} {point : BGPoint τ}
    (h : point.Fits joining items) (himp : joining → joining') : point.Fits joining' items := by
  cases point with
  | loadExitAgain => exact Or.imp_left himp h
  | loadWait => exact himp h
  | testEmpty => exact himp h
  | returned => exact ⟨himp h.1, h.2⟩
  | _ => exact h

/-- Another task in the queue changes nothing, unless the worker is at its end. -/
lemma Fits.append {joining : Prop} {items : List τ} {point : BGPoint τ}
    (h : point.Fits joining items) (hnot : ¬joining) (item : τ) :
    point.Fits joining (items ++ [item]) := by
  cases point with
  | loadExitAgain => exact .inr (by simp)
  | front => exact fun hnil => by simp at hnil
  | pop first =>
      obtain ⟨rest, rfl⟩ : ∃ rest, items = first :: rest := List.head?_eq_some_iff.mp h
      rfl
  | loadWait => exact absurd h hnot
  | testEmpty => exact absurd h hnot
  | returned => exact absurd h.1 hnot
  | _ => trivial

/-- A bound on the steps to the end of the loop when the flag is up. -/
def rank (items : List τ) : BGPoint τ → ℕ
  | .loadExit => 7 * items.length + 5
  | .pollEmpty => 7 * items.length + 6
  | .loadExitAgain => 7 * items.length + 4
  | .loadWait => 7 * items.length + 3
  | .testEmpty => 7 * items.length + 2
  | .front => 7 * items.length + 1
  | .pop _ => 7 * items.length
  | .call _ => 7 * items.length + 6
  | .returned => 0

end BGPoint

namespace ThreadPool

variable {s : ThreadPool τ} {th : BGThread τ} {accepted : List τ}

/-- The worker has run the tasks accepted for it, up to the one in its hand and those in the queue.
-/
def Serves (s : ThreadPool τ) (accepted : List τ) (th : BGThread τ) : Prop :=
  ∃ items, s.queues.read th.taskQueue = some items ∧
    s.ran th.threadId ++ th.point.inHand ++ items = accepted ∧
    th.point.Fits (s.user = .joining) items

/-- The rank of a worker. -/
def rankOf (s : ThreadPool τ) (th : BGThread τ) : ℕ :=
  th.point.rank ((s.queues.read th.taskQueue).getD [])

/-- What a step of a worker does: it touches its own queue and its own tasks, goes on serving, and
comes closer to its end when the flag is up. -/
def Advances (s : ThreadPool τ) (accepted : List τ) (th : BGThread τ) : Prop :=
  ∃ queues ran point, s.bgThread th = some ({ s with queues := queues, ran := ran }, point) ∧
    (∀ a, a ≠ th.taskQueue → queues.read a = s.queues.read a) ∧
    (∀ i, i ≠ th.threadId → ran i = s.ran i) ∧
    ({ s with queues := queues, ran := ran } : ThreadPool τ).Serves accepted
      { th with point := point } ∧
    (s.user = .joining → ({ s with queues := queues, ran := ran } : ThreadPool τ).rankOf
      { th with point := point } < s.rankOf th)

/-- **One step of a worker.** -/
lemma Serves.bgThread (h : s.Serves accepted th)
    (hexit : s.exitAllThreads = true ↔ s.user = .joining)
    (hwait : s.user = .joining → s.waitForJobsToComplete = true) (hnot : th.point ≠ .returned) :
    s.Advances accepted th := by
  obtain ⟨id, queue, point⟩ := th
  obtain ⟨items, hread, htasks, hfits⟩ := h
  dsimp only at hread htasks hnot ⊢
  have hrank : ∀ p, s.rankOf ⟨id, queue, p⟩ = p.rank items := by
    simp [rankOf, hread]
  -- a step that changes neither queues nor log
  have hquiet : ∀ point', point'.inHand = point.inHand → point'.Fits (s.user = .joining) items →
      s.bgThread ⟨id, queue, point⟩ = some (s, point') →
      (s.user = .joining → point'.rank items < point.rank items) →
      s.Advances accepted ⟨id, queue, point⟩ := by
    intro point' hhand hfits' hstep hlt
    refine ⟨s.queues, s.ran, point', hstep, fun _ _ => rfl, fun _ _ => rfl,
      ⟨items, hread, by rw [hhand]; exact htasks, hfits'⟩, fun hjoin => ?_⟩
    change s.rankOf ⟨id, queue, point'⟩ < _
    rw [hrank, hrank]
    exact hlt hjoin
  cases point with
  | loadExit =>
      by_cases hup : s.exitAllThreads = true
      · exact hquiet .loadExitAgain rfl (.inl (hexit.mp hup)) (by simp [ThreadPool.bgThread, hup])
          fun _ => by simp [BGPoint.rank]
      · exact hquiet .pollEmpty rfl trivial (by simp [ThreadPool.bgThread, hup])
          fun hjoin => absurd (hexit.mpr hjoin) hup
  | pollEmpty =>
      by_cases hnil : items = []
      · exact hquiet .loadExit rfl trivial (by simp [ThreadPool.bgThread, hread, hnil])
          fun _ => by simp [BGPoint.rank]
      · exact hquiet .loadExitAgain rfl (.inr hnil) (by simp [ThreadPool.bgThread, hread, hnil])
          fun _ => by simp [BGPoint.rank]
  | loadExitAgain =>
      by_cases hup : s.exitAllThreads = true
      · exact hquiet .loadWait rfl (hexit.mp hup) (by simp [ThreadPool.bgThread, hup])
          fun _ => by simp [BGPoint.rank]
      · -- the flag was down, so the poll has seen a task
        have hne : items ≠ [] := hfits.resolve_left fun hjoin => hup (hexit.mpr hjoin)
        exact hquiet .front rfl hne (by simp [ThreadPool.bgThread, hup])
          fun _ => by simp [BGPoint.rank]
  | loadWait =>
      exact hquiet .testEmpty rfl hfits (by simp [ThreadPool.bgThread, hwait hfits])
        fun _ => by simp [BGPoint.rank]
  | testEmpty =>
      by_cases hnil : items = []
      · exact hquiet .returned rfl ⟨hfits, hnil⟩ (by simp [ThreadPool.bgThread, hread, hnil])
          fun _ => by simp [BGPoint.rank]
      · exact hquiet .front rfl hnil (by simp [ThreadPool.bgThread, hread, hnil])
          fun _ => by simp [BGPoint.rank]
  | front =>
      obtain ⟨item, rest, rfl⟩ := List.exists_cons_of_ne_nil hfits
      exact hquiet (.pop item) rfl rfl (by simp [ThreadPool.bgThread, hread])
        fun _ => by simp [BGPoint.rank]
  | pop item =>
      obtain ⟨rest, rfl⟩ : ∃ rest, items = item :: rest := List.head?_eq_some_iff.mp hfits
      obtain ⟨queues, hwrite, -, hqueues⟩ := Heap.write_spec hread rest
      have hnew : queues.read queue = some rest := by simp [hqueues]
      refine ⟨queues, s.ran, .call item, ?_, fun a ha => ?_, fun _ _ => rfl,
        ⟨rest, hnew, ?_, trivial⟩, fun _ => ?_⟩
      · simp [ThreadPool.bgThread, hread, hwrite]
      · simp [hqueues, ha]
      · simpa [BGPoint.inHand] using htasks
      · rw [hrank]
        simp [rankOf, hnew, BGPoint.rank]
        omega
  | call item =>
      refine ⟨s.queues, update s.ran id (s.ran id ++ [item]), .loadExit, rfl,
        fun _ _ => rfl, fun i hi => update_of_ne hi _ _, ⟨items, hread, ?_, trivial⟩,
        fun _ => ?_⟩
      · simpa [BGPoint.inHand] using htasks
      · rw [hrank]
        simp [rankOf, hread, BGPoint.rank]
  | returned => exact absurd rfl hnot

/-! ## The workers -/

/-- Worker `k` serves the tasks accepted for it, at the queue with its number. -/
structure Running (accepted : ℕ → List τ) (s : ThreadPool τ) : Prop where
  length_eq : s.bgthreads.length = s.queuePool.length
  nodup : s.queuePool.Nodup
  serves : ∀ k th, s.bgthreads[k]? = some th →
    th.threadId = k ∧ s.queuePool[k]? = some th.taskQueue ∧ s.Serves (accepted k) th
  rest : ∀ k, s.bgthreads.length ≤ k → s.ran k = accepted k
  limit : s.user = .started → s.totalThreadsLimit.toNat = s.bgthreads.length
  exit_iff : s.exitAllThreads = true ↔ s.user = .joining
  wait : s.user = .storing ∨ s.user = .joining → s.waitForJobsToComplete = true

/-- The rank of all workers. -/
def rank (s : ThreadPool τ) : ℕ := (s.bgthreads.map s.rankOf).sum

variable {accepted : ℕ → List τ} {k : ℕ}

lemma Running.taskQueue_ne (h : s.Running accepted) {j : ℕ} {th' : BGThread τ}
    (hk : s.bgthreads[k]? = some th) (hj : s.bgthreads[j]? = some th') (hne : j ≠ k) :
    th'.taskQueue ≠ th.taskQueue := by
  intro heq
  obtain ⟨-, hqk, -⟩ := h.serves k th hk
  obtain ⟨-, hqj, -⟩ := h.serves j th' hj
  have hlt : j < s.queuePool.length := (List.getElem?_eq_some_iff.mp hqj).1
  exact hne ((List.getElem?_inj hlt h.nodup).mp (by rw [hqj, hqk, heq]))

lemma Running.not_exit (h : s.Running accepted) (huser : s.user ≠ .joining) :
    ¬s.exitAllThreads = true :=
  h.exit_iff.not.mpr huser

lemma Serves.frame {l : List τ} {s' : ThreadPool τ} (h : s.Serves l th)
    (huser : s.user = .joining → s'.user = .joining)
    (hqueue : s'.queues.read th.taskQueue = s.queues.read th.taskQueue)
    (hran : s'.ran th.threadId = s.ran th.threadId) : s'.Serves l th := by
  obtain ⟨items, hread, htasks, hfits⟩ := h
  exact ⟨items, hqueue.trans hread, hran ▸ htasks, hfits.mono huser⟩

/-- **A step of a worker** is defined, keeps all workers serving, and brings the end closer when the
flag is up. -/
lemma Running.worker (h : s.Running accepted) (hk : s.bgthreads[k]? = some th)
    (hnot : th.point ≠ .returned) :
    ∃ s', s.worker k = some s' ∧ s'.Running accepted ∧ s'.user = s.user ∧
      (s.user = .joining → s'.rank < s.rank) := by
  obtain ⟨hid, hqueue, hserves⟩ := h.serves k th hk
  obtain ⟨queues, ran, point, hstep, hqueues, hran, hserves', hlt⟩ :=
    hserves.bgThread h.exit_iff (fun hjoin => h.wait (.inr hjoin)) hnot
  have hklt : k < s.bgthreads.length := (List.getElem?_eq_some_iff.mp hk).1
  set s' : ThreadPool τ := { s with
    queues := queues
    ran := ran
    bgthreads := s.bgthreads.set k { th with point := point } } with hs'
  have hother : ∀ j th', s.bgthreads[j]? = some th' → j ≠ k →
      s'.queues.read th'.taskQueue = s.queues.read th'.taskQueue := fun j th' hj hne =>
    hqueues _ (h.taskQueue_ne hk hj hne)
  refine ⟨s', by simp [ThreadPool.worker, hk, hstep, hs'], ?_, rfl, fun hjoin => ?_⟩
  · refine ⟨by simpa [hs'] using h.length_eq, h.nodup, fun j th' hj => ?_, fun j hj => ?_,
      fun huser => by simpa [hs'] using h.limit huser, h.exit_iff, h.wait⟩
    · by_cases hne : j = k
      · subst hne
        obtain rfl : { th with point := point } = th' := by
          simpa [hs', List.getElem?_set_self hklt] using hj
        exact ⟨hid, hqueue, hserves'⟩
      · have hj' : s.bgthreads[j]? = some th' := by
          simpa [hs', List.getElem?_set_ne (Ne.symm hne)] using hj
        obtain ⟨hid', hqueue', hserves₀⟩ := h.serves j th' hj'
        refine ⟨hid', hqueue', hserves₀.frame id (hother j th' hj' hne) (hran _ ?_)⟩
        rw [hid', hid]
        exact hne
    · have hj : s.bgthreads.length ≤ j := by simpa [hs'] using hj
      refine (hran j ?_).trans (h.rest j hj)
      omega
  · refine Family.sum_set_lt hk (fun j th' hj hne => ?_) (hlt hjoin)
    rw [rankOf, rankOf, hother j th' hj hne]

/-- **`Schedule`** appends the task to the queue of the worker, if there is room. -/
lemma Running.schedule (h : s.Running accepted) (huser : s.user = .started)
    (hlimit : (k : ℤ) < s.totalThreadsLimit) (item : τ) :
    ∃ th queue items, s.bgthreads[k]? = some th ∧ s.queuePool[k]? = some queue ∧
      s.queues.read queue = some items ∧ s.ran k ++ th.point.inHand ++ items = accepted k ∧
      (¬items.length < receiveOutstandingSize → s.schedule item k = some s) ∧
      (items.length < receiveOutstandingSize → ∃ queues,
        s.schedule item k = some { s with queues := queues } ∧
        Running (update accepted k (accepted k ++ [item]))
          { s with queues := queues }) := by
  have hexit := h.not_exit (by simp [huser])
  have hklt : k < s.bgthreads.length := by
    have := h.limit huser
    omega
  obtain ⟨hid, hqueue, items, hread, htasks, hfits⟩ :=
    h.serves k _ (List.getElem?_eq_getElem hklt)
  set th := s.bgthreads[k] with hth
  refine ⟨th, th.taskQueue, items, List.getElem?_eq_getElem hklt, hqueue, hread, hid ▸ htasks,
    fun hfull => ?_, fun hroom => ?_⟩
  · simp [ThreadPool.schedule, hexit, hqueue, hread, hfull]
  obtain ⟨queues, hwrite, -, hqueues⟩ := Heap.write_spec hread (items ++ [item])
  refine ⟨queues, ?_, ?_⟩
  · simp [ThreadPool.schedule, hexit, hqueue, hread, hroom, hwrite]
  refine ⟨h.length_eq, h.nodup, fun j th' hj => ?_, fun j hj => ?_, h.limit, h.exit_iff, h.wait⟩
  · by_cases hne : j = k
    · subst hne
      obtain rfl : th = th' := by
        rw [List.getElem?_eq_getElem hklt] at hj
        exact Option.some.inj hj
      refine ⟨hid, hqueue, items ++ [item], by simp [hqueues], ?_, ?_⟩
      · rw [update_self, ← htasks, List.append_assoc _ items]
      · exact hfits.append (by simp [huser]) item
    · obtain ⟨hid', hqueue', hserves⟩ := h.serves j th' hj
      refine ⟨hid', hqueue', ?_⟩
      rw [update_of_ne hne]
      refine hserves.frame id ?_ rfl
      exact (hqueues _).trans (if_neg (h.taskQueue_ne (List.getElem?_eq_getElem hklt) hj hne))
  · have hne : j ≠ k := fun heq => absurd hj (by simpa [heq] using hklt)
    rw [update_of_ne hne]
    exact h.rest j hj

lemma free_all {h : Heap (List τ)} {l : List ℕ} (hl : l.Nodup)
    (halloc : ∀ a ∈ l, ∃ items, h.read a = some items) : ∃ h', l.foldlM Heap.free h = some h' := by
  induction l generalizing h with
  | nil => exact ⟨h, rfl⟩
  | cons a l ih =>
      obtain ⟨hnot, hl⟩ := List.nodup_cons.mp hl
      obtain ⟨items, hread⟩ := halloc a List.mem_cons_self
      obtain ⟨h₁, hfree, -, hreads⟩ := Heap.free_spec hread
      have halloc' : ∀ b ∈ l, ∃ items, h₁.read b = some items := by
        intro b hb
        have hne : b ≠ a := ne_of_mem_of_not_mem hb hnot
        rw [hreads, if_neg hne]
        exact halloc b (List.mem_cons_of_mem _ hb)
      obtain ⟨h', hrest⟩ := ih hl halloc'
      exact ⟨h', by simp [hfree, hrest]⟩

/-- **The end of `JoinThreads`**: all tasks that were accepted have run. -/
lemma Running.joined (h : s.Running accepted)
    (hreturned : ∀ th ∈ s.bgthreads, th.point = .returned) :
    ∃ s', s.joined = some s' ∧ s'.user = .stopped ∧ s'.bgthreads = [] ∧
      s'.exitAllThreads = false ∧ s'.ran = accepted := by
  have halloc : ∀ a ∈ s.queuePool, ∃ items, s.queues.read a = some items := by
    intro a ha
    obtain ⟨k, hk⟩ := List.mem_iff_getElem?.mp ha
    have hklt : k < s.bgthreads.length := by
      rw [h.length_eq]
      exact (List.getElem?_eq_some_iff.mp hk).1
    obtain ⟨-, hqueue, items, hread, -⟩ := h.serves k _ (List.getElem?_eq_getElem hklt)
    rw [hk] at hqueue
    rw [Option.some.inj hqueue]
    exact ⟨items, hread⟩
  obtain ⟨queues, hfree⟩ := free_all h.nodup halloc
  refine ⟨_, by rw [ThreadPool.joined, hfree, Option.map_some], rfl, rfl, rfl, ?_⟩
  funext k
  by_cases hklt : k < s.bgthreads.length
  · obtain ⟨hid, -, items, -, htasks, hfits⟩ := h.serves k _ (List.getElem?_eq_getElem hklt)
    rw [hreturned _ (List.getElem_mem hklt)] at htasks hfits
    rw [hid, hfits.2] at htasks
    simpa [BGPoint.inHand] using htasks
  · exact h.rest k (Nat.le_of_not_lt hklt)

lemma newQueues_spec (n : ℕ) (queues : Heap (List τ)) (queuePool : List ℕ) :
    (newQueues n queues queuePool).2 = queuePool ++ List.range' queues.fresh n ∧
    ∀ a, (newQueues n queues queuePool).1.read a =
      if queues.fresh ≤ a ∧ a < queues.fresh + n then some [] else queues.read a := by
  induction n generalizing queues queuePool with
  | zero =>
      refine ⟨by simp [newQueues], fun a => ?_⟩
      rw [if_neg (by omega)]
      rfl
  | succ n ih =>
      obtain ⟨hpool, hreads⟩ := ih (queues.alloc []).1 (queuePool ++ [(queues.alloc []).2])
      refine ⟨by rw [newQueues, hpool]; simp [List.range'_succ], fun a => ?_⟩
      rw [newQueues, hreads, Heap.read_alloc, Heap.alloc_fresh]
      by_cases hlt : a = queues.fresh
      · rw [if_neg (by omega), if_pos hlt, if_pos (by omega)]
      · rw [if_neg hlt]
        exact if_congr (by omega) rfl rfl

/-- **`SetBackgroundThreads`** when no queues were left behind. -/
lemma running_start (hempty : s.queuePool = []) (hthreads : s.bgthreads = [])
    (hexit : s.exitAllThreads = false) (num : ℤ) :
    (s.setBackgroundThreads num).Running s.ran := by
  obtain ⟨hbehind, hreads⟩ := newQueues_spec num.toNat s.queues s.queuePool
  have hpool : (newQueues num.toNat s.queues s.queuePool).2 =
      List.range' s.queues.fresh num.toNat :=
    hbehind.trans (by rw [hempty, List.nil_append])
  have hqueue : ∀ {k}, k < num.toNat → (newQueues num.toNat s.queues s.queuePool).2[k]? =
      some (s.queues.fresh + k) := by
    intro k hk
    simp [hpool, hk]
  refine ⟨?_, ?_, fun k th hk => ?_, fun _ _ => rfl, fun _ => ?_, ?_, ?_⟩
  · simp [setBackgroundThreads, startBGThreads, hthreads, hpool]
  · simpa [setBackgroundThreads, startBGThreads, hpool] using List.nodup_range'
  · have hth : k < num.toNat ∧ ⟨k, s.queues.fresh + k, .loadExit⟩ = th := by
      have hk : ((List.range num.toNat).map fun i => (⟨i,
          (newQueues num.toNat s.queues s.queuePool).2.getD i 0, .loadExit⟩ : BGThread τ))[k]? =
          some th := by
        simpa [setBackgroundThreads, startBGThreads, hthreads] using hk
      rw [List.getElem?_map, Option.map_eq_some_iff] at hk
      obtain ⟨i, hi, hth⟩ := hk
      obtain ⟨hlt, rfl⟩ := List.getElem?_eq_some_iff.mp hi
      have hlt : k < num.toNat := by simpa using hlt
      refine ⟨hlt, ?_⟩
      rw [← hth, List.getElem_range, List.getD_eq_getElem?_getD, hqueue hlt]
      rfl
    obtain ⟨hlt, rfl⟩ := hth
    refine ⟨rfl, hqueue hlt, [], ?_, ?_, trivial⟩
    · exact (hreads _).trans (if_pos ⟨by simp, by simpa using hlt⟩)
    · simp [BGPoint.inHand, setBackgroundThreads, startBGThreads]
  · simp [setBackgroundThreads, startBGThreads, hthreads]
  · simp [setBackgroundThreads, startBGThreads, hexit]
  · simp [setBackgroundThreads, startBGThreads]

/-! ## Runs -/

/-- There are no workers and all accepted tasks have run, or the workers serve them. -/
def Ok (accepted : ℕ → List τ) (s : ThreadPool τ) : Prop :=
  (s.user = .stopped ∧ s.bgthreads = [] ∧ s.exitAllThreads = false ∧ s.ran = accepted) ∨
  (s.user ≠ .stopped ∧ s.Running accepted)

lemma Ok.running (h : s.Ok accepted) (huser : s.user ≠ .stopped) : s.Running accepted :=
  h.elim (fun hstopped => absurd hstopped.1 huser) And.right

/-- What is accepted after an action. -/
def accept (accepted : ℕ → List τ) : PoolAct τ → ℕ → List τ
  | .schedule item k => update accepted k (accepted k ++ [item])
  | _ => accepted

/-- The user goes on in `JoinThreads`, which the workers may only notice by the flags. -/
lemma Running.join (h : s.Running accepted) {s' : ThreadPool τ}
    (hthreads : s'.bgthreads = s.bgthreads) (hpool : s'.queuePool = s.queuePool)
    (hqueues : s'.queues = s.queues) (hran : s'.ran = s.ran)
    (huser : s.user ≠ .joining) (hnext : s'.user ≠ .started)
    (hexit : s'.exitAllThreads = true ↔ s'.user = .joining)
    (hwait : s'.waitForJobsToComplete = true) : s'.Running accepted := by
  refine ⟨by rw [hthreads, hpool, h.length_eq], hpool ▸ h.nodup, fun k th hk => ?_, fun k hk => ?_,
    fun hstarted => absurd hstarted hnext, hexit, fun _ => hwait⟩
  · rw [hthreads] at hk
    obtain ⟨hid, hqueue, hserves⟩ := h.serves k th hk
    exact ⟨hid, hpool ▸ hqueue, hserves.frame (fun hjoin => absurd hjoin huser) (by rw [hqueues])
      (by rw [hran])⟩
  · rw [hran]
    exact h.rest k (hthreads ▸ hk)

/-- **Every step** that meets the condition is defined, and accepts the task it schedules. -/
lemma Ok.act (h : s.Ok accepted) {a : PoolAct τ} (hacc : s.Accepts a) (hen : s.Enabled a) :
    ∃ s', s.act a = some s' ∧ s'.Ok (accept accepted a) := by
  cases a with
  | setBackgroundThreads num =>
      rcases h with ⟨-, hthreads, hexit, rfl⟩ | ⟨hne, -⟩
      · exact ⟨_, rfl, .inr ⟨PoolUser.noConfusion, running_start hacc hthreads hexit num⟩⟩
      · exact absurd hen hne
  | schedule item k =>
      obtain ⟨huser, hlimit⟩ := hen
      have hrun := h.running (by simp [huser])
      obtain ⟨-, queue, items, -, hqueue, hread, -, -, hroom⟩ := hrun.schedule huser hlimit item
      obtain ⟨queues, hstep, hrun'⟩ := hroom (hacc queue hqueue items hread)
      exact ⟨_, hstep, .inr ⟨by simp [huser], hrun'⟩⟩
  | joinThreads =>
      have huser : s.user = .started := hen
      have hrun := h.running (by simp [huser])
      have hexit := hrun.not_exit (by simp [huser])
      refine ⟨_, if_neg hexit, .inr ⟨PoolUser.noConfusion, ?_⟩⟩
      exact hrun.join rfl rfl rfl rfl (by simp [huser])
        PoolUser.noConfusion (by simpa using hexit) rfl
  | storeExit =>
      have huser : s.user = .storing := hen
      have hrun := h.running (by simp [huser])
      refine ⟨_, rfl, .inr ⟨PoolUser.noConfusion, ?_⟩⟩
      exact hrun.join rfl rfl rfl rfl (by simp [huser])
        PoolUser.noConfusion (by simp [storeExit]) (hrun.wait (.inl huser))
  | joined =>
      obtain ⟨huser, hreturned⟩ := hen
      have hrun := h.running (by simp [huser])
      obtain ⟨s', hstep, hstopped⟩ := hrun.joined hreturned
      exact ⟨s', hstep, .inl hstopped⟩
  | worker k =>
      obtain ⟨th, hk, hnot⟩ := hen
      have huser : s.user ≠ .stopped := by
        rcases h with ⟨-, hthreads, -⟩ | ⟨hne, -⟩
        · simp [hthreads] at hk
        · exact hne
      obtain ⟨s', hstep, hrun, hsame, -⟩ := (h.running huser).worker hk hnot
      exact ⟨s', hstep, .inr ⟨hsame ▸ huser, hrun⟩⟩

/-- In `JoinThreads` some thread can always go on. -/
lemma exists_enabled (huser : s.user = .joining) :
    s.Enabled .joined ∨
      ∃ (k : ℕ) (th : BGThread τ), s.bgthreads[k]? = some th ∧ th.point ≠ .returned := by
  by_cases hall : ∀ th ∈ s.bgthreads, th.point = .returned
  · exact .inl ⟨huser, hall⟩
  · push Not at hall
    obtain ⟨th, hth, hnot⟩ := hall
    obtain ⟨k, hk⟩ := List.mem_iff_getElem?.mp hth
    exact .inr ⟨k, th, hk, hnot⟩

/-- **`JoinThreads` returns**: until then, every step uses up a part of the rank. -/
lemma Running.join_returns (h : s.Running accepted) (huser : s.user = .joining)
    {tr : List (PoolAct τ)} {y : Option (ThreadPool τ)} (hrun : Lts.Run PoolStep (some s) tr y)
    (hnot : .joined ∉ tr) :
    ∃ s', y = some s' ∧ s'.Running accepted ∧ s'.user = .joining ∧
      s'.rank + tr.length ≤ s.rank := by
  induction hrun with
  | nil => exact ⟨s, rfl, h, huser, le_rfl⟩
  | @snoc tr t u a _ hstep ih =>
      simp only [List.mem_append, List.mem_singleton, not_or] at hnot
      obtain ⟨s₁, rfl, hrun₁, huser₁, hle⟩ := ih hnot.1
      obtain ⟨s₂, hs₂, hen, rfl⟩ := hstep
      obtain rfl := Option.some.inj hs₂
      cases a with
      | worker k =>
          obtain ⟨th, hk, hpoint⟩ := hen
          obtain ⟨s', hs', hrun', hsame, hlt⟩ := hrun₁.worker hk hpoint
          have hlt := hlt huser₁
          refine ⟨s', hs', hrun', hsame.trans huser₁, ?_⟩
          rw [List.length_append, List.length_singleton]
          omega
      | joined => exact absurd rfl hnot.2
      | setBackgroundThreads num => exact PoolUser.noConfusion (huser₁.symm.trans hen)
      | schedule item k => exact PoolUser.noConfusion (huser₁.symm.trans hen.1)
      | joinThreads => exact PoolUser.noConfusion (huser₁.symm.trans hen)
      | storeExit => exact PoolUser.noConfusion (huser₁.symm.trans hen)

lemma Running.exists_return (h : s.Running accepted) (huser : s.user = .joining) :
    ∃ tr s', Lts.Run PoolStep (some s) tr (some s') ∧ (∀ k, scheduledTo k tr = []) ∧
      s'.user = .stopped ∧ s'.ran = accepted := by
  induction hn : s.rank using Nat.strong_induction_on generalizing s with
  | _ n ih =>
      rcases exists_enabled huser with hen | ⟨k, th, hk, hnot⟩
      · obtain ⟨s', hstep, hstopped, -, -, hran⟩ := h.joined hen.2
        exact ⟨[.joined], s', .cons ⟨s, rfl, hen, hstep⟩ .nil, fun _ => rfl, hstopped, hran⟩
      · obtain ⟨s₁, hstep, hrun, hsame, hlt⟩ := h.worker hk hnot
        obtain ⟨tr, s', htail, hnone, hend⟩ :=
          ih s₁.rank (hn ▸ hlt huser) hrun (hsame.trans huser) rfl
        exact ⟨.worker k :: tr, s', .cons ⟨s, rfl, ⟨th, hk, hnot⟩, hstep⟩ htail, hnone, hend⟩

lemma Running.exists_join (h : s.Running accepted) (huser : s.user = .started) :
    ∃ tr s', Lts.Run PoolStep (some s) tr (some s') ∧ (∀ k, scheduledTo k tr = []) ∧
      s'.user = .stopped ∧ s'.ran = accepted := by
  have hok : s.Ok accepted := .inr ⟨by simp [huser], h⟩
  have hexit := h.not_exit (by simp [huser])
  have hjoin : s.act .joinThreads =
      some { s with waitForJobsToComplete := true, user := .storing } := if_neg hexit
  obtain ⟨s₁, hstep₁, hok₁⟩ := hok.act (a := .joinThreads) trivial huser
  obtain rfl := Option.some.inj (hjoin.symm.trans hstep₁)
  obtain ⟨s₂, hstep₂, hok₂⟩ := hok₁.act (a := .storeExit) trivial rfl
  obtain rfl := Option.some.inj hstep₂
  obtain ⟨tr, s', hrun, hnone, hend⟩ :=
    (hok₂.running PoolUser.noConfusion).exists_return rfl
  exact ⟨.joinThreads :: .storeExit :: tr, s',
    .cons ⟨s, rfl, huser, hjoin⟩ (.cons ⟨_, rfl, rfl, rfl⟩ hrun), hnone, hend⟩

lemma Ok.ran_prefix (h : s.Ok accepted) (k : ℕ) : s.ran k <+: accepted k := by
  rcases h with ⟨-, -, -, hran⟩ | ⟨-, hrun⟩
  · rw [hran]
  · by_cases hk : k < s.bgthreads.length
    · obtain ⟨hid, -, items, -, htasks, -⟩ := hrun.serves k _ (List.getElem?_eq_getElem hk)
      rw [← htasks, hid, List.append_assoc]
      exact List.prefix_append _ _
    · rw [hrun.rest k (Nat.le_of_not_lt hk)]

end ThreadPool

lemma scheduledTo_append (tr : List (PoolAct τ)) (a : PoolAct τ) :
    (fun k => scheduledTo k (tr ++ [a])) = ThreadPool.accept (fun k => scheduledTo k tr) a := by
  funext k
  cases a with
  | schedule item threadId =>
      by_cases hk : k = threadId
      · subst hk
        simp [scheduledTo, ThreadPool.accept]
      · simp [scheduledTo, ThreadPool.accept, hk, Ne.symm hk]
  | _ => simp [scheduledTo, ThreadPool.accept]

/-- The condition on the steps of a run. -/
def PoolAccepts (x : Option (ThreadPool τ)) (a : PoolAct τ) : Prop := ∀ s ∈ x, s.Accepts a

/-- **Delivery of tasks.**  In every run in which tasks are scheduled when there is room and workers
are started when no queues were left behind, no deleted queue is touched, the tasks of a worker run
once and in order, and all of them have run when there are no workers any more.  `JoinThreads`
returns: some thread can go on until then, and no run of more steps than the rank avoids the return.
-/
theorem thread_pool_delivery {limit : ℤ} {wait : Bool} {queues : Heap (List τ)}
    {tr : List (PoolAct τ)} {y : Option (ThreadPool τ)}
    (hrun : Lts.Run (Lts.Guarded PoolStep PoolAccepts) (some (.start limit wait queues)) tr y) :
    ∃ s, y = some s ∧ (∀ k, s.ran k <+: scheduledTo k tr) ∧
      (s.user = .stopped → ∀ k, s.ran k = scheduledTo k tr) ∧
      (s.user = .joining → (∃ a, s.Enabled a) ∧
        ∀ tr' y', Lts.Run PoolStep (some s) tr' y' → s.rank < tr'.length → .joined ∈ tr') := by
  have hok : ∃ s, y = some s ∧ s.Ok fun k => scheduledTo k tr := by
    refine hrun.history_invariant
      (I := fun tr y => ∃ s, y = some s ∧ s.Ok fun k => scheduledTo k tr)
      ⟨_, rfl, .inl ⟨rfl, rfl, rfl, rfl⟩⟩ ?_
    rintro tr _ a _ - ⟨s, rfl, hok⟩ ⟨hacc, s', hs', hen, rfl⟩
    obtain rfl := Option.some.inj hs'
    obtain ⟨s', hstep, hok'⟩ := hok.act (hacc s rfl) hen
    exact ⟨s', hstep, scheduledTo_append tr a ▸ hok'⟩
  obtain ⟨s, rfl, hok⟩ := hok
  refine ⟨s, rfl, hok.ran_prefix, fun hstopped k => ?_,
    fun hjoin => ⟨?_, fun tr' y' hrun' hlt => ?_⟩⟩
  · rcases hok with ⟨-, -, -, hran⟩ | ⟨hne, -⟩
    · rw [hran]
    · exact absurd hstopped hne
  · rcases ThreadPool.exists_enabled hjoin with hen | ⟨k, th, hk, hnot⟩
    · exact ⟨.joined, hen⟩
    · exact ⟨.worker k, th, hk, hnot⟩
  · by_contra hnot
    obtain ⟨s', -, -, -, hle⟩ := (hok.running (by simp [hjoin])).join_returns hjoin hrun' hnot
    omega

/-- A worker that finds its task after the flag is up. -/
theorem thread_pool_delivery_one_task :
    ∃ s : ThreadPool ℕ, Lts.Run (Lts.Guarded PoolStep PoolAccepts)
        (some (.start 0 false Heap.empty))
        ([.setBackgroundThreads 1, .worker 0, .schedule 7 0, .joinThreads, .storeExit] ++
          (List.replicate 11 (.worker 0) ++ [.joined])) (some s) ∧
      s.ran 0 = [7] := by
  have hstep : ∀ {s s' : ThreadPool ℕ} {a}, s.Accepts a → s.Enabled a → s.act a = some s' →
      Lts.Guarded PoolStep PoolAccepts (some s) a (some s') := fun hacc hen hact =>
    ⟨fun _ hs => Option.some.inj hs ▸ hacc, _, rfl, hen, hact⟩
  have hworker : ∀ {s s' : ThreadPool ℕ} {th}, s.bgthreads[0]? = some th → th.point ≠ .returned →
      s.worker 0 = some s' → Lts.Guarded PoolStep PoolAccepts (some s) (.worker 0) (some s') :=
    fun hk hnot hact => hstep trivial ⟨_, hk, hnot⟩ hact
  have hroom : ∀ {s : ThreadPool ℕ}, s.queuePool[0]? = some 0 → s.queues.read 0 = some [] →
      s.Accepts (.schedule 7 0) := by
    intro s hpool hread
    simp [ThreadPool.Accepts, hpool, hread, receiveOutstandingSize]
  obtain ⟨s, hrun, hstopped⟩ : ∃ s : ThreadPool ℕ,
      Lts.Run (Lts.Guarded PoolStep PoolAccepts) (some (.start 0 false Heap.empty))
        ([.setBackgroundThreads 1, .worker 0, .schedule 7 0, .joinThreads, .storeExit] ++
          (List.replicate 11 (.worker 0) ++ [.joined])) (some s) ∧ s.user = .stopped := by
    apply Exists.intro
    refine ⟨.cons (hstep rfl rfl rfl) (.cons (hworker rfl (by rintro ⟨⟩) rfl)
      (.cons (hstep (hroom rfl rfl) ⟨rfl, by decide⟩ rfl) (.cons (hstep trivial rfl rfl)
      (.cons (hstep trivial rfl rfl) ?_)))), ?_⟩
    iterate 11 refine .cons (hworker rfl (by rintro ⟨⟩) rfl) ?_
    · exact .cons (hstep trivial ⟨rfl, List.forall_mem_singleton.mpr rfl⟩ rfl) .nil
    · rfl
  obtain ⟨s', hs', -, hall, -⟩ := thread_pool_delivery hrun
  obtain rfl := Option.some.inj hs'
  exact ⟨s, hrun, hall hstopped 0⟩

/-! ## Where tasks are lost -/

lemma burst_fits {n : ℕ} (hn : n ≤ receiveOutstandingSize) :
    ∃ s : ThreadPool ℕ, Lts.Run PoolStep (some (.start 0 false Heap.empty))
        (.setBackgroundThreads 1 :: (List.range n).map fun i => .schedule i 0) (some s) ∧
      s.Running (update (fun _ => []) 0 (List.range n)) ∧ s.user = .started ∧
      s.totalThreadsLimit = 1 ∧ s.bgthreads = [⟨0, 0, .loadExit⟩] ∧ s.ran = fun _ => [] := by
  induction n with
  | zero =>
      refine ⟨_, .cons ⟨_, rfl, rfl, rfl⟩ .nil, ?_, rfl, rfl, rfl, rfl⟩
      have hrun : ThreadPool.Running (fun _ => [])
          ((ThreadPool.start (τ := ℕ) 0 false Heap.empty).setBackgroundThreads 1) :=
        ThreadPool.running_start (s := ThreadPool.start 0 false Heap.empty) rfl rfl rfl 1
      simpa using hrun
  | succ n ih =>
      obtain ⟨s, hrun, hrunning, huser, hlimit, hthreads, hran⟩ := ih (Nat.le_of_succ_le hn)
      have hzero : ((0 : ℕ) : ℤ) < s.totalThreadsLimit := by simp [hlimit]
      obtain ⟨th, queue, items, -, -, -, htasks, -, hroom⟩ := hrunning.schedule huser hzero n
      have hlen : items.length ≤ n := by
        rw [update_self] at htasks
        rw [← List.length_range (n := n), ← htasks, List.length_append]
        exact Nat.le_add_left _ _
      obtain ⟨queues, hstep, hrunning'⟩ := hroom (Nat.lt_of_le_of_lt hlen hn)
      refine ⟨{ s with queues := queues }, ?_, ?_, huser, hlimit, hthreads, hran⟩
      · rw [List.range_succ, List.map_append, ← List.cons_append]
        exact .snoc hrun ⟨s, rfl, ⟨huser, hzero⟩, hstep⟩
      · simpa [List.range_succ] using hrunning'

/-- One task more than the queue holds is dropped: it has not run when `JoinThreads` has returned.
And a task that is scheduled after a restart goes to a deleted queue. -/
theorem thread_pool_loses_tasks :
    (∃ tr s, Lts.Run PoolStep (some (ThreadPool.start 0 false Heap.empty)) tr (some s) ∧
      s.user = .stopped ∧ scheduledTo 0 tr = List.range 1025 ∧ s.ran 0 = List.range 1024) ∧
    Lts.Run PoolStep (some (ThreadPool.start 0 false Heap.empty))
      [.setBackgroundThreads 1, .joinThreads, .storeExit, .worker 0, .worker 0, .worker 0,
        .worker 0, .joined, .setBackgroundThreads 1, .schedule 7 0] none := by
  constructor
  · obtain ⟨s, hburst, hrunning, huser, hlimit, hthreads, hran⟩ :=
      burst_fits (le_refl receiveOutstandingSize)
    have hzero : ((0 : ℕ) : ℤ) < s.totalThreadsLimit := by simp [hlimit]
    obtain ⟨th, queue, items, hth, -, -, htasks, hfull, -⟩ := hrunning.schedule huser hzero 1024
    -- the worker has not done anything, so the queue is full
    have hitems : items = List.range receiveOutstandingSize := by
      obtain rfl : ⟨0, 0, .loadExit⟩ = th := by simpa [hthreads] using hth
      simpa [hran, BGPoint.inHand] using htasks
    have hdropped : PoolStep (some s) (.schedule 1024 0) (some s) :=
      ⟨s, rfl, ⟨huser, hzero⟩, hfull (by rw [hitems, List.length_range]; exact lt_irrefl _)⟩
    obtain ⟨tr, s', hjoin, hnone, hstopped, hran'⟩ := hrunning.exists_join huser
    refine ⟨_, s', (hburst.snoc hdropped).append hjoin, hstopped, ?_, ?_⟩
    · have hrest : tr.filterMap _ = [] := hnone 0
      rw [scheduledTo, List.filterMap_append, hrest, List.filterMap_append, List.append_nil,
        List.filterMap_cons_none rfl, List.filterMap_map, List.range_succ]
      exact congrArg (· ++ [1024]) List.filterMap_some
    · rw [hran', update_self]
      rfl
  · have hworker : ∀ {s s' : ThreadPool ℕ} {th}, s.bgthreads[0]? = some th → th.point ≠ .returned →
        s.worker 0 = some s' → PoolStep (some s) (.worker 0) (some s') := fun hk hnot hstep =>
      ⟨_, rfl, ⟨_, hk, hnot⟩, hstep⟩
    iterate 3 refine .cons ⟨_, rfl, rfl, rfl⟩ ?_
    iterate 4 refine .cons (hworker rfl (by rintro ⟨⟩) rfl) ?_
    exact .cons ⟨_, rfl, ⟨rfl, List.forall_mem_singleton.mpr rfl⟩, rfl⟩
      (.cons ⟨_, rfl, rfl, rfl⟩ (.cons ⟨_, rfl, ⟨rfl, by decide⟩, rfl⟩ .nil))

end GroundDB
