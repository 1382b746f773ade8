import GroundDB.Lib.Run
import GroundDB.Lib.Family
import GroundDB.Lib.PostedRing

/-!
# Receiving requests and handing them to workers

`server_communication_thread` serves one connection.  It polls for arrivals, copies the message at
its position in the ring of receive buffers into a new `RDMA_Request`, posts the buffer again, puts
the arguments of the handler into the local `req_args` of the loop body and pushes the handler for
the message's command, with the address of `req_args`, on the queue of a worker chosen at random.
The worker pops the item some time later, calls the handler, and the handler reads the arguments
through the pointer, serves the message and deletes the `RDMA_Request`.

`req_args` lives as long as one iteration of the loop; `reqArgs` is `none` outside of it, and to
read it then is no step.  The next iteration puts its own arguments in the same place.  A push on a
full queue fails, which nobody looks at.  `BGItem.request` is not part of the program: it says for
which request an item was pushed.

Each request is served once, by the right handler and with its own arguments, in the runs in which
the loop ends no iteration before the worker has read the arguments (`served_run`).
-/

namespace GroundDB

open Lts PostedRing Function

/-- `RDMA_Command_Type`: the commands that the memory node serves, and the others. -/
inductive RdmaCommand
  | flushPage
  | accessPage
  | syncPat
  | mrInfo
  | other
deriving DecidableEq, Repr

/-- `RDMA_Request`. -/
structure RdmaRequest (C : Type) where
  command : RdmaCommand
  content : C

/-- `request_handler_args`; `request` is the address of the message. -/
structure RequestHandlerArgs where
  request : ℕ
  clientIp : String
  computeNodeId : UInt16
deriving DecidableEq, Repr

/-- `BGItem`: the handler to call, with the address of `req_args`. -/
structure BGItem where
  function : RdmaCommand
  request : ℕ
deriving DecidableEq, Repr

/-- A worker: waiting, in the handler before it has read its arguments, and after. -/
inductive Worker
  | idle
  | called (item : BGItem)
  | handling (item : BGItem) (args : RequestHandlerArgs)

/-- A message that was served, by which handler and with which arguments. -/
structure Handling (C : Type) where
  item : BGItem
  args : RequestHandlerArgs
  message : RdmaRequest C

/-- Where the loop is: before a message is taken, before the push, before the end of the
iteration, and after the `break` for an unknown command. -/
inductive LoopState
  | polling
  | dispatching
  | scheduled
  | stopped
deriving DecidableEq, Repr

/-- `RECEIVE_OUTSTANDING_SIZE`: the receive buffers, and the room in the queue of a worker. -/
def receiveOutstandingSize : ℕ := 1024

/-- The thread of a connection and the workers. -/
structure CommThread (C : Type) (T : ℕ) where
  ring : Ring (RdmaRequest C) receiveOutstandingSize
  requests : ℕ → Option (RdmaRequest C)
  received : ℕ
  reqArgs : Option RequestHandlerArgs
  loop : LoopState
  queues : Fin T → List BGItem
  workers : Fin T → Worker
  handled : List (Handling C)

/-- The steps: an arrival, three of the loop, three of a worker. -/
inductive CommStep (T : ℕ)
  | arrive
  | receive
  | schedule (t : Fin T)
  | next
  | pop (t : Fin T)
  | read (t : Fin T)
  | finish (t : Fin T)

namespace CommThread

variable {C : Type} {T : ℕ}

/-- The thread when its buffers are posted. -/
def start (T : ℕ) (msgs : List (RdmaRequest C)) : CommThread C T :=
  { ring := .start _ msgs, requests := fun _ => none, received := 0, reqArgs := none
    loop := .polling, queues := fun _ => [], workers := fun _ => .idle, handled := [] }

/-- A message is copied into a new `RDMA_Request`, and `req_args` is made. -/
def takeMessage (clientIp : String) (computeNodeId : UInt16) (st : CommThread C T)
    (msg : RdmaRequest C) (ring : Ring (RdmaRequest C) receiveOutstandingSize) : CommThread C T :=
  { st with ring := ring, requests := update st.requests st.received (some msg)
            received := st.received + 1
            reqArgs := some ⟨st.received, clientIp, computeNodeId⟩, loop := .dispatching }

/-- `Schedule`: the item is lost if the queue is full. -/
def push (st : CommThread C T) (t : Fin T) (item : BGItem) : CommThread C T :=
  { st with queues := if (st.queues t).length < receiveOutstandingSize
              then update st.queues t (st.queues t ++ [item]) else st.queues
            loop := .scheduled }

/-- The worker takes an item off its queue. -/
def popItem (st : CommThread C T) (t : Fin T) (item : BGItem) (rest : List BGItem) :
    CommThread C T :=
  { st with queues := update st.queues t rest
            workers := update st.workers t (.called item) }

/-- The handler has read its arguments. -/
def readArgs (st : CommThread C T) (t : Fin T) (item : BGItem) (args : RequestHandlerArgs) :
    CommThread C T :=
  { st with workers := update st.workers t (.handling item args) }

/-- The handler has served the message and deleted it. -/
def serve (st : CommThread C T) (t : Fin T) (item : BGItem) (args : RequestHandlerArgs)
    (msg : RdmaRequest C) : CommThread C T :=
  { st with requests := update st.requests args.request none
            workers := update st.workers t .idle
            handled := st.handled ++ [⟨item, args, msg⟩] }

/-- One step. -/
def step (clientIp : String) (computeNodeId : UInt16) (st : CommThread C T) :
    CommStep T → Option (CommThread C T)
  | .arrive => st.ring.arrive.map fun ring => { st with ring := ring }
  | .receive =>
      if st.loop = .polling then
        st.ring.take.map fun r => st.takeMessage clientIp computeNodeId r.1 r.2
      else none
  | .schedule t =>
      if st.loop = .dispatching then
        st.reqArgs.bind fun args => (st.requests args.request).map fun msg =>
          if msg.command = .other then { st with loop := .stopped, reqArgs := none }
          else st.push t ⟨msg.command, args.request⟩
      else none
  | .next =>
      if st.loop = .scheduled then some { st with reqArgs := none, loop := .polling } else none
  | .pop t =>
      match st.workers t, st.queues t with
      | .idle, item :: rest => some (st.popItem t item rest)
      | _, _ => none
  | .read t =>
      match st.workers t, st.reqArgs with
      | .called item, some args => some (st.readArgs t item args)
      | _, _ => none
  | .finish t =>
      match st.workers t with
      | .handling item args => (st.requests args.request).map (st.serve t item args)
      | _ => none

/-- The steps of a run. -/
def Step (clientIp : String) (computeNodeId : UInt16) (st : CommThread C T) (a : CommStep T)
    (st' : CommThread C T) : Prop :=
  st.step clientIp computeNodeId a = some st'

/-- An item that was pushed and whose handler has not read its arguments yet. -/
def Unread (st : CommThread C T) (item : BGItem) : Prop :=
  ∃ t, item ∈ st.queues t ∨ st.workers t = .called item

/-- The loop ends an iteration only when the arguments were read. -/
def ArgsRead (st : CommThread C T) : CommStep T → Prop
  | .next => ∀ item, ¬st.Unread item
  | _ => True

end CommThread

/-- How many times a worker is at the item of the request `k`. -/
def Worker.copies (k : ℕ) : Worker → ℕ
  | .idle => 0
  | .called item => if item.request = k then 1 else 0
  | .handling item _ => if item.request = k then 1 else 0

namespace Worker

variable (k : ℕ) (item : BGItem) (args : RequestHandlerArgs)

@[simp] lemma copies_idle : Worker.idle.copies k = 0 := rfl

@[simp] lemma copies_called :
    (Worker.called item).copies k = if item.request = k then 1 else 0 := rfl

@[simp] lemma copies_handling :
    (Worker.handling item args).copies k = if item.request = k then 1 else 0 := rfl

end Worker

namespace CommThread

variable {C : Type} {T : ℕ}

/-- How many items in the queues, with the workers and among what was served are for the
request `k`. -/
def copies (st : CommThread C T) (k : ℕ) : ℕ :=
  ∑ t, (st.queues t).countP (·.request = k) + ∑ t, (st.workers t).copies k
    + st.handled.countP (·.item.request = k)

/-- The requests that were pushed. -/
def scheduled (st : CommThread C T) : ℕ :=
  if st.loop = .dispatching then st.received - 1 else st.received

/-- **Requests are served once and with their own arguments**: what was served is one of the
messages `msgs`, by the handler for its command; of every request that was pushed one item is under
way or served; and no handler uses a dead pointer. -/
structure Served (clientIp : String) (computeNodeId : UInt16) (msgs : List (RdmaRequest C))
    (st : CommThread C T) : Prop where
  own : ∀ e ∈ st.handled, msgs[e.item.request]? = some e.message ∧
    e.item.function = e.message.command ∧ e.args = ⟨e.item.request, clientIp, computeNodeId⟩
  once : ∀ k, st.copies k = if k < st.scheduled then 1 else 0
  reads : ∀ t item, st.workers t = .called item →
    (st.step clientIp computeNodeId (.read t)).isSome = true
  finishes : ∀ t item args, st.workers t = .handling item args →
    (st.step clientIp computeNodeId (.finish t)).isSome = true

/-! ## The invariant -/

/-- What holds while the loop waits for its workers. -/
structure CommInv (clientIp : String) (computeNodeId : UInt16) (msgs : List (RdmaRequest C))
    (st : CommThread C T) : Prop where
  ring : ∃ a, Ring.Tracks msgs st.received a st.ring
  running : st.loop ≠ .stopped
  args : st.loop ≠ .polling →
    0 < st.received ∧ st.reqArgs = some ⟨st.received - 1, clientIp, computeNodeId⟩
  unread : ∀ item, st.Unread item → st.loop = .scheduled ∧ item.request + 1 = st.received ∧
    (msgs[item.request]?).map RdmaRequest.command = some item.function
  handling : ∀ t item args, st.workers t = .handling item args →
    args = ⟨item.request, clientIp, computeNodeId⟩ ∧ item.request < st.received ∧
    (msgs[item.request]?).map RdmaRequest.command = some item.function
  own : ∀ e ∈ st.handled, msgs[e.item.request]? = some e.message ∧
    e.item.function = e.message.command ∧ e.args = ⟨e.item.request, clientIp, computeNodeId⟩
  once : ∀ k, st.copies k = if k < st.scheduled then 1 else 0
  heap : ∀ k < st.received, st.handled.countP (·.item.request = k) = 0 →
    st.requests k = msgs[k]?

variable {clientIp : String} {computeNodeId : UInt16} {msgs : List (RdmaRequest C)}
  {st st' : CommThread C T} {t : Fin T} {item : BGItem} {args : RequestHandlerArgs}
  {msg : RdmaRequest C} {a : CommStep T}

lemma commInv_start (clientIp : String) (computeNodeId : UInt16) (T : ℕ)
    (msgs : List (RdmaRequest C)) : CommInv clientIp computeNodeId msgs (start T msgs) := by
  refine ⟨⟨0, Ring.tracks_start _ msgs⟩, by simp [start], fun hp => absurd rfl hp, ?_, ?_, ?_,
    ?_, ?_⟩
  · rintro item ⟨t, hq | hw⟩
    · exact absurd hq List.not_mem_nil
    · cases hw
  · intro t item args hw
    cases hw
  · intro e he
    exact absurd he List.not_mem_nil
  · intro k
    simp [copies, start, scheduled]
  · intro k hk
    exact absurd hk (Nat.not_lt_zero k)

lemma copies_worker_le (st : CommThread C T) (t : Fin T) (k : ℕ) :
    (st.workers t).copies k + st.handled.countP (·.item.request = k) ≤ st.copies k := by
  have hle : (st.workers t).copies k ≤ ∑ t, (st.workers t).copies k :=
    Finset.single_le_sum (f := fun t => (st.workers t).copies k) (fun _ _ => Nat.zero_le _)
      (Finset.mem_univ t)
  rw [copies]
  omega

namespace CommInv

lemma arrive (hi : CommInv clientIp computeNodeId msgs st)
    {ring : Ring (RdmaRequest C) receiveOutstandingSize} (hr : st.ring.arrive = some ring) :
    CommInv clientIp computeNodeId msgs { st with ring := ring } := by
  obtain ⟨a, ha⟩ := hi.ring
  exact ⟨⟨a + 1, ha.arrive hr⟩, hi.running, hi.args, hi.unread, hi.handling, hi.own, hi.once,
    hi.heap⟩

lemma takeMessage (hi : CommInv clientIp computeNodeId msgs st) (hl : st.loop = .polling)
    {ring : Ring (RdmaRequest C) receiveOutstandingSize} (hr : st.ring.take = some (msg, ring)) :
    CommInv clientIp computeNodeId msgs (st.takeMessage clientIp computeNodeId msg ring) := by
  obtain ⟨a, ha⟩ := hi.ring
  obtain ⟨hmsg, hring⟩ := ha.take (by decide) hr
  refine ⟨⟨a, hring⟩, by simp [CommThread.takeMessage], ?_, ?_, ?_, hi.own, ?_, ?_⟩
  · intro _
    exact ⟨Nat.succ_pos _, rfl⟩
  · intro item hun
    have hsch := (hi.unread item hun).1
    rw [hl] at hsch
    cases hsch
  · intro t item args hw
    obtain ⟨hargs, hlt, hcmd⟩ := hi.handling t item args hw
    exact ⟨hargs, Nat.lt_succ_of_lt hlt, hcmd⟩
  · intro k
    have hsame : (st.takeMessage clientIp computeNodeId msg ring).copies k = st.copies k := rfl
    rw [hsame, hi.once]
    simp [scheduled, hl, CommThread.takeMessage]
  · intro k hk hcount
    by_cases hkr : k = st.received
    · rw [hkr, hmsg]
      exact update_self ..
    · have hk' : k < st.received := by
        have : k < st.received + 1 := hk
        omega
      rw [← hi.heap k hk' hcount]
      exact update_of_ne hkr _ _

lemma push (hi : CommInv clientIp computeNodeId msgs st) (hl : st.loop = .dispatching)
    (hreq : st.requests (st.received - 1) = some msg) :
    CommInv clientIp computeNodeId msgs (st.push t ⟨msg.command, st.received - 1⟩) := by
  obtain ⟨hpos, hargs⟩ := hi.args (by rw [hl]; decide)
  have hempty : ∀ t, st.queues t = [] := by
    intro t
    refine List.eq_nil_iff_forall_not_mem.mpr fun item hmem => ?_
    have hsch := (hi.unread item ⟨t, .inl hmem⟩).1
    rw [hl] at hsch
    cases hsch
  have hqueues : (st.push t ⟨msg.command, st.received - 1⟩).queues
      = update st.queues t [⟨msg.command, st.received - 1⟩] := by
    simp [CommThread.push, hempty t, receiveOutstandingSize]
  have hlast : st.copies (st.received - 1) = 0 := by
    rw [hi.once, scheduled, if_pos hl]
    simp
  have hmsg : msgs[st.received - 1]? = some msg := by
    rw [← hi.heap _ (by omega) (by rw [copies] at hlast; omega), hreq]
  refine ⟨hi.ring, by simp [CommThread.push], fun _ => ⟨hpos, hargs⟩, ?_, hi.handling, hi.own, ?_,
    hi.heap⟩
  · rintro item ⟨t', hq | hw⟩
    · rw [hqueues] at hq
      by_cases ht : t' = t
      · rw [ht, update_self, List.mem_singleton] at hq
        subst hq
        refine ⟨rfl, Nat.sub_add_cancel hpos, ?_⟩
        simp [hmsg]
      · rw [update_of_ne ht, hempty t'] at hq
        exact absurd hq List.not_mem_nil
    · have hsch := (hi.unread item ⟨t', .inr hw⟩).1
      rw [hl] at hsch
      cases hsch
  · intro k
    have hsum := Family.sum_update_add (fun q : List BGItem => q.countP (·.request = k))
      st.queues t [⟨msg.command, st.received - 1⟩]
    simp only [hempty t, List.countP_nil, Nat.add_zero, List.countP_singleton,
      decide_eq_true_eq] at hsum
    have hmore : (st.push t ⟨msg.command, st.received - 1⟩).copies k
        = st.copies k + if st.received - 1 = k then 1 else 0 := by
      rw [copies, hqueues, hsum, copies]
      simp only [CommThread.push]
      omega
    rw [hmore, hi.once]
    simp only [scheduled, hl, if_true, CommThread.push, reduceCtorEq, if_false]
    split_ifs <;> omega

lemma next (hi : CommInv clientIp computeNodeId msgs st) (hl : st.loop = .scheduled)
    (hread : ∀ item, ¬st.Unread item) :
    CommInv clientIp computeNodeId msgs { st with reqArgs := none, loop := .polling } := by
  refine ⟨hi.ring, by simp, fun hp => absurd rfl hp, ?_, hi.handling, hi.own, ?_, hi.heap⟩
  · intro item hun
    exact absurd hun (hread item)
  · intro k
    have hsame : copies { st with reqArgs := none, loop := .polling } k = st.copies k := rfl
    rw [hsame, hi.once]
    simp [scheduled, hl]

/-- After a worker moved, what any of them does is either its new work or what it did before. -/
lemma worker_moved {workers : Fin T → Worker} {t t' : Fin T} {w w' : Worker}
    (h : update workers t w t' = w') : w = w' ∨ workers t' = w' := by
  by_cases ht : t' = t
  · rw [ht, update_self] at h
    exact .inl h
  · rw [update_of_ne ht] at h
    exact .inr h

lemma popItem (hi : CommInv clientIp computeNodeId msgs st) {rest : List BGItem}
    (hw : st.workers t = .idle) (hq : st.queues t = item :: rest) :
    CommInv clientIp computeNodeId msgs (st.popItem t item rest) := by
  have hun : ∀ x, (st.popItem t item rest).Unread x → st.Unread x := by
    rintro x ⟨t', hmem | hcall⟩
    · by_cases ht : t' = t
      · rw [ht] at hmem
        simp only [CommThread.popItem, update_self] at hmem
        exact ⟨t, .inl (hq ▸ List.mem_cons_of_mem item hmem)⟩
      · simp only [CommThread.popItem, update_of_ne ht] at hmem
        exact ⟨t', .inl hmem⟩
    · rcases worker_moved hcall with hnew | hold
      · cases hnew
        exact ⟨t, .inl (hq ▸ List.mem_cons_self)⟩
      · exact ⟨t', .inr hold⟩
  refine ⟨hi.ring, hi.running, hi.args, fun x hx => hi.unread x (hun x hx), ?_, hi.own, ?_,
    hi.heap⟩
  · intro t' x args hcall
    rcases worker_moved hcall with hnew | hold
    · cases hnew
    · exact hi.handling t' x args hold
  · intro k
    have hqueues := Family.sum_update_add (fun q : List BGItem => q.countP (·.request = k))
      st.queues t rest
    have hworkers := Family.sum_update_add (Worker.copies k) st.workers t (.called item)
    simp only [hq, List.countP_cons, decide_eq_true_eq] at hqueues
    simp only [hw, Worker.copies_idle, Worker.copies_called] at hworkers
    have hsame : (st.popItem t item rest).copies k = st.copies k := by
      simp only [copies, CommThread.popItem]
      omega
    rw [hsame]
    exact hi.once k

lemma readArgs (hi : CommInv clientIp computeNodeId msgs st) (hw : st.workers t = .called item)
    (ha : st.reqArgs = some args) :
    CommInv clientIp computeNodeId msgs (st.readArgs t item args) := by
  obtain ⟨hl, hreq, hcmd⟩ := hi.unread item ⟨t, .inr hw⟩
  obtain ⟨-, hargs⟩ := hi.args (by rw [hl]; decide)
  have hown : args = ⟨item.request, clientIp, computeNodeId⟩ := by
    rw [ha, Option.some.injEq] at hargs
    rw [hargs, ← hreq, Nat.add_sub_cancel]
  refine ⟨hi.ring, hi.running, hi.args, ?_, ?_, hi.own, ?_, hi.heap⟩
  · rintro x ⟨t', hmem | hcall⟩
    · exact hi.unread x ⟨t', .inl hmem⟩
    · rcases worker_moved hcall with hnew | hold
      · cases hnew
      · exact hi.unread x ⟨t', .inr hold⟩
  · intro t' x args' hcall
    rcases worker_moved hcall with hnew | hold
    · cases hnew
      have hlt : item.request < st.received := by omega
      exact ⟨hown, hlt, hcmd⟩
    · exact hi.handling t' x args' hold
  · intro k
    have hworkers := Family.sum_update_add (Worker.copies k) st.workers t (.handling item args)
    simp only [hw, Worker.copies_called, Worker.copies_handling] at hworkers
    have hsame : (st.readArgs t item args).copies k = st.copies k := by
      simp only [copies, CommThread.readArgs]
      omega
    rw [hsame]
    exact hi.once k

/-- The message that a handler serves is still there, and it is the right one. -/
lemma message (hi : CommInv clientIp computeNodeId msgs st)
    (hw : st.workers t = .handling item args) :
    st.handled.countP (·.item.request = item.request) = 0 ∧
      st.requests args.request = msgs[item.request]? := by
  obtain ⟨hargs, hlt, -⟩ := hi.handling t item args hw
  have hone := copies_worker_le st t item.request
  rw [hw, Worker.copies_handling, if_pos rfl, hi.once] at hone
  have hzero : st.handled.countP (·.item.request = item.request) = 0 := by
    split at hone <;> omega
  rw [hargs]
  exact ⟨hzero, hi.heap item.request hlt hzero⟩

lemma serve (hi : CommInv clientIp computeNodeId msgs st)
    (hw : st.workers t = .handling item args) (hmsg : st.requests args.request = some msg) :
    CommInv clientIp computeNodeId msgs (st.serve t item args msg) := by
  obtain ⟨hargs, hlt, hcmd⟩ := hi.handling t item args hw
  obtain ⟨-, hheap⟩ := hi.message hw
  rw [hmsg] at hheap
  refine ⟨hi.ring, hi.running, hi.args, ?_, ?_, ?_, ?_, ?_⟩
  · rintro x ⟨t', hmem | hcall⟩
    · exact hi.unread x ⟨t', .inl hmem⟩
    · rcases worker_moved hcall with hnew | hold
      · cases hnew
      · exact hi.unread x ⟨t', .inr hold⟩
  · intro t' x args' hcall
    rcases worker_moved hcall with hnew | hold
    · cases hnew
    · exact hi.handling t' x args' hold
  · intro e he
    rcases List.mem_append.mp he with hold | hnew
    · exact hi.own e hold
    · rw [List.mem_singleton.mp hnew]
      rw [← hheap, Option.map_some, Option.some.injEq] at hcmd
      exact ⟨hheap.symm, hcmd.symm, hargs⟩
  · intro k
    have hworkers := Family.sum_update_add (Worker.copies k) st.workers t .idle
    simp only [hw, Worker.copies_idle, Worker.copies_handling] at hworkers
    have hsame : (st.serve t item args msg).copies k = st.copies k := by
      simp only [copies, CommThread.serve, List.countP_append, List.countP_singleton,
        decide_eq_true_eq]
      omega
    rw [hsame]
    exact hi.once k
  · intro k hk hcount
    simp only [CommThread.serve, List.countP_append, List.countP_singleton,
      decide_eq_true_eq] at hcount
    have hne : k ≠ args.request := by
      rintro rfl
      rw [hargs, if_pos rfl] at hcount
      omega
    rw [← hi.heap k hk (by omega)]
    exact update_of_ne hne _ _

/-- **Every step** of a run in which the loop waits for its workers keeps the invariant. -/
lemma step (hi : CommInv clientIp computeNodeId msgs st) (hwf : ∀ m ∈ msgs, m.command ≠ .other)
    (hread : st.ArgsRead a) (hs : st.step clientIp computeNodeId a = some st') :
    CommInv clientIp computeNodeId msgs st' := by
  cases a with
  | arrive =>
      obtain ⟨ring, hr, rfl⟩ := Option.map_eq_some_iff.mp hs
      exact hi.arrive hr
  | receive =>
      rw [CommThread.step] at hs
      split at hs
      next hl =>
        obtain ⟨r, hr, rfl⟩ := Option.map_eq_some_iff.mp hs
        exact hi.takeMessage hl hr
      next => cases hs
  | schedule t =>
      rw [CommThread.step] at hs
      split at hs
      next hl =>
        obtain ⟨args, hargs, hs⟩ := Option.bind_eq_some_iff.mp hs
        obtain ⟨msg, hmsg, rfl⟩ := Option.map_eq_some_iff.mp hs
        obtain ⟨hpos, hargs'⟩ := hi.args (by rw [hl]; decide)
        obtain rfl : args = ⟨st.received - 1, clientIp, computeNodeId⟩ :=
          Option.some.inj (hargs.symm.trans hargs')
        have hknown : msg.command ≠ .other := by
          have hlast : st.copies (st.received - 1) = 0 := by
            rw [hi.once, scheduled, if_pos hl]
            simp
          have hheap := hi.heap (st.received - 1) (by omega) (by rw [copies] at hlast; omega)
          rw [hmsg] at hheap
          exact hwf msg (List.mem_of_getElem? hheap.symm)
        rw [if_neg hknown]
        exact hi.push hl hmsg
      next => cases hs
  | next =>
      rw [CommThread.step] at hs
      split at hs
      next hl =>
        obtain rfl := Option.some.inj hs
        exact hi.next hl hread
      next => cases hs
  | pop t =>
      rw [CommThread.step] at hs
      split at hs
      next item rest hw hq =>
        obtain rfl := Option.some.inj hs
        exact hi.popItem hw hq
      next => cases hs
  | read t =>
      rw [CommThread.step] at hs
      split at hs
      next item args hw ha =>
        obtain rfl := Option.some.inj hs
        exact hi.readArgs hw ha
      next => cases hs
  | finish t =>
      rw [CommThread.step] at hs
      split at hs
      next item args hw =>
        obtain ⟨msg, hmsg, rfl⟩ := Option.map_eq_some_iff.mp hs
        exact hi.serve hw hmsg
      next => cases hs

lemma served (hi : CommInv clientIp computeNodeId msgs st) :
    Served clientIp computeNodeId msgs st := by
  refine ⟨hi.own, hi.once, ?_, ?_⟩
  · intro t item hw
    obtain ⟨hl, -⟩ := hi.unread item ⟨t, .inr hw⟩
    obtain ⟨-, hargs⟩ := hi.args (by rw [hl]; decide)
    simp [CommThread.step, hw, hargs]
  · intro t item args hw
    obtain ⟨-, -, hcmd⟩ := hi.handling t item args hw
    obtain ⟨msg, hmsg, -⟩ := Option.map_eq_some_iff.mp hcmd
    obtain ⟨-, hheap⟩ := hi.message hw
    simp [CommThread.step, hw, hheap, hmsg]

end CommInv

/-- **Each request is handled once, by the handler for its command and with its own message, client
address and node id**, in every state of every run in which the loop ends no iteration before the
arguments of its request were read. -/
theorem served_run (clientIp : String) (computeNodeId : UInt16) (T : ℕ)
    {msgs : List (RdmaRequest C)} (hwf : ∀ m ∈ msgs, m.command ≠ .other)
    {tr : List (CommStep T)} {st : CommThread C T}
    (hrun : Run (Guarded (Step clientIp computeNodeId) ArgsRead) (start T msgs) tr st) :
    Served clientIp computeNodeId msgs st := by
  have hinv : CommInv clientIp computeNodeId msgs st := by
    refine hrun.invariant (commInv_start clientIp computeNodeId T msgs) ?_
    rintro st a st' hi ⟨hread, hs⟩
    exact hi.step hwf hread hs
  exact hinv.served

section ConcreteRuns

-- the ring of 1024 buffers is evaluated
set_option maxRecDepth 8000

/-- Two requests are received, each read by its worker while the loop waits, and served, the second
one first. -/
theorem served_run_two : ∃ st : CommThread ℕ 2,
    Run (Guarded (Step "10.0.0.1" 1) ArgsRead) (start 2 [⟨.flushPage, 7⟩, ⟨.accessPage, 8⟩])
      [.arrive, .arrive, .receive, .schedule 1, .pop 1, .read 1, .next, .receive, .schedule 0,
        .pop 0, .read 0, .next, .finish 0, .finish 1] st ∧
    st.handled.map (fun e => (e.item.function, e.message.content)) =
      [(.accessPage, 8), (.flushPage, 7)] ∧
    Served "10.0.0.1" 1 [⟨.flushPage, 7⟩, ⟨.accessPage, 8⟩] st := by
  have hrun : ∃ st : CommThread ℕ 2,
      Run (Guarded (Step "10.0.0.1" 1) ArgsRead) (start 2 [⟨.flushPage, 7⟩, ⟨.accessPage, 8⟩])
        [.arrive, .arrive, .receive, .schedule 1, .pop 1, .read 1, .next, .receive, .schedule 0,
          .pop 0, .read 0, .next, .finish 0, .finish 1] st ∧
      st.handled.map (fun e => (e.item.function, e.message.content)) =
        [(.accessPage, 8), (.flushPage, 7)] := by
    refine ⟨_, .cons ⟨trivial, rfl⟩ (.cons ⟨trivial, rfl⟩ (.cons ⟨trivial, rfl⟩
      (.cons ⟨trivial, rfl⟩ (.cons ⟨trivial, rfl⟩ (.cons ⟨trivial, rfl⟩ (.cons ⟨?_, rfl⟩
      (.cons ⟨trivial, rfl⟩ (.cons ⟨trivial, rfl⟩ (.cons ⟨trivial, rfl⟩ (.cons ⟨trivial, rfl⟩
      (.cons ⟨?_, rfl⟩ (.cons ⟨trivial, rfl⟩ (.cons ⟨trivial, rfl⟩ .nil))))))))))))), rfl⟩
    all_goals
      rintro item ⟨t, hq | hw⟩
      · fin_cases t <;> cases hq
      · fin_cases t <;> cases hw
  obtain ⟨st, hst, hhandled⟩ := hrun
  exact ⟨st, hst, hhandled, served_run "10.0.0.1" 1 2 (by simp) hst⟩

/-- The flush handler of the first request reads its arguments when those of the second are there:
it serves the access request. -/
theorem served_with_others_args : ∃ st : CommThread ℕ 2,
    Run (Step "10.0.0.1" 1) (start 2 [⟨.flushPage, 7⟩, ⟨.accessPage, 8⟩])
      [.arrive, .arrive, .receive, .schedule 1, .next, .receive, .pop 1, .read 1, .finish 1] st ∧
    st.handled.map (fun e => (e.item.function, e.message.command))
      = [(.flushPage, .accessPage)] :=
  ⟨_, .cons rfl (.cons rfl (.cons rfl (.cons rfl (.cons rfl (.cons rfl (.cons rfl (.cons rfl
    (.cons rfl .nil)))))))), rfl⟩

end ConcreteRuns

end CommThread

end GroundDB
