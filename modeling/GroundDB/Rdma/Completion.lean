import GroundDB.Lib.Run
import Mathlib.Tactic

/-!
# Completions of work requests

Threads that wait for work requests of one memory region share its completion queue.  A thread that
takes a completion of another request off the queue parks it in the map `polled_wc`, and a thread
that finds its own completion parked removes it.

So no completion is lost or delivered twice, and each goes to the thread that waits for it
(`Polling.Conserved`).  But a thread that finds its completion parked only removes it: the status it
looks at is the one in its local variable, which holds the last completion it parked itself, or
nothing at all.  The results are right exactly in the runs in which that status happens to be as
good as the parked one (`completions_routed`).
-/

namespace GroundDB

open Lts Function

/-- `ibv_wc`: what is used of a completion. -/
structure Wc where
  wrId : UInt64
  status : ℕ
deriving DecidableEq, Repr

/-- `IBV_WC_SUCCESS`. -/
def ibvWcSuccess : ℕ := 0

/-- The completion queue of a memory region and its map `polled_wc`, with distinct keys. -/
structure MemoryRegion where
  cq : List Wc
  polledWc : List Wc
deriving DecidableEq, Repr

/-! ## Work request ids -/

/-- `obtain_wr_id`: the id and the counter after it. -/
def obtainWrId (wrIdCnt : UInt64) : UInt64 × UInt64 := (wrIdCnt, wrIdCnt + 1)

/-- The ids that successive calls return. -/
def obtained (wrIdCnt : UInt64) : ℕ → UInt64
  | 0 => (obtainWrId wrIdCnt).1
  | n + 1 => obtained (obtainWrId wrIdCnt).2 n

lemma toNat_obtained (wrIdCnt : UInt64) (n : ℕ) :
    (obtained wrIdCnt n).toNat = (wrIdCnt.toNat + n) % 2 ^ 64 := by
  induction n generalizing wrIdCnt with
  | zero =>
      have := wrIdCnt.toNat_lt
      simp only [obtained, obtainWrId]
      omega
  | succ n ih =>
      have hnext : (wrIdCnt + 1).toNat = (wrIdCnt.toNat + 1) % 2 ^ 64 := UInt64.toNat_add _ _
      rw [obtained, ih]
      simp only [obtainWrId, hnext]
      omega

/-- As long as the counter does not come round, ids are distinct. -/
lemma obtained_injective (wrIdCnt : UInt64) {n : ℕ} (hn : n ≤ 2 ^ 64) :
    Function.Injective fun i : Fin n => obtained wrIdCnt i := by
  intro i j hij
  have hnat := congrArg UInt64.toNat hij
  simp only [toNat_obtained] at hnat
  have := wrIdCnt.toNat_lt
  exact Fin.ext (by omega)

/-! ## One turn of a poller -/

/-- `ibv_poll_cq` for one completion: its result, the queue after it and the completion, which stays
as it was unless one is found.  The call may fail. -/
def ibvPollCq (fails : Bool) (cq : List Wc) (wc : Wc) : ℤ × List Wc × Wc :=
  if fails then (-1, cq, wc)
  else match cq with
    | [] => (0, [], wc)
    | found :: cq' => (1, cq', found)

/-- `polled_wc[wc.wr_id] = wc`. -/
def park (polledWc : List Wc) (wc : Wc) : List Wc :=
  polledWc.filter (fun x => x.wrId ≠ wc.wrId) ++ [wc]

/-- One turn of the loop of `poll_completion`, under the lock: `poll_result`, the region and the
local `wc` after it.  A completion that is found parked is erased; `wc` is not set. -/
def pollOnce (fails : Bool) (memreg : MemoryRegion) (wrId : UInt64) (wc : Wc) :
    ℤ × MemoryRegion × Wc :=
  if memreg.polledWc.any (fun x => x.wrId = wrId) then
    (1, { memreg with polledWc := memreg.polledWc.filter fun x => x.wrId ≠ wrId }, wc)
  else
    let polled := ibvPollCq fails memreg.cq wc
    if polled.1 = 1 ∧ polled.2.2.wrId ≠ wrId then
      (0, ⟨polled.2.1, park memreg.polledWc polled.2.2⟩, polled.2.2)
    else (polled.1, { memreg with cq := polled.2.1 }, polled.2.2)

/-- The value `poll_completion` returns after its loop. -/
def returnCode (pollResult : ℤ) (wc : Wc) : ℕ :=
  if pollResult < 0 then 1
  else if pollResult = 0 then 1
  else if wc.status ≠ ibvWcSuccess then 1
  else 0

@[simp] lemma returnCode_one_eq_zero {wc : Wc} :
    returnCode 1 wc = 0 ↔ wc.status = ibvWcSuccess := by
  simp [returnCode]

@[simp] lemma returnCode_zero (wc : Wc) : returnCode 0 wc = 1 := rfl

@[simp] lemma returnCode_neg_one (wc : Wc) : returnCode (-1) wc = 1 := rfl

/-- The completion that a turn hands to its poller: the parked one, or the one it found. -/
def handedOver (fails : Bool) (memreg : MemoryRegion) (wrId : UInt64) : Option Wc :=
  match memreg.polledWc.find? (fun x => x.wrId = wrId) with
  | some wc => some wc
  | none =>
      if fails then none
      else match memreg.cq with
        | [] => none
        | found :: _ => if found.wrId = wrId then some found else none

namespace MemoryRegion

/-- The completion of a work request is in the queue or parked. -/
def Arrived (m : MemoryRegion) (id : UInt64) : Prop := id ∈ (m.cq ++ m.polledWc).map Wc.wrId

/-- After how many turns its poller has to find a completion that has arrived: none if it is parked,
else as many as there are completions before it. -/
def turnsLeft (m : MemoryRegion) (id : UInt64) : ℕ :=
  if id ∈ m.polledWc.map Wc.wrId then 0
  else (m.cq.map Wc.wrId).idxOf id

lemma Arrived.enqueue {m : MemoryRegion} {id : UInt64} (h : m.Arrived id) (wc : Wc) :
    Arrived { m with cq := m.cq ++ [wc] } id ∧
      turnsLeft { m with cq := m.cq ++ [wc] } id = m.turnsLeft id := by
  simp only [Arrived, turnsLeft, List.map_append, List.mem_append] at h ⊢
  refine ⟨h.imp .inl (fun hp => hp), ?_⟩
  by_cases hparked : id ∈ m.polledWc.map Wc.wrId
  · rw [if_pos hparked, if_pos hparked]
  · rw [if_neg hparked, if_neg hparked]
    exact List.idxOf_append_of_mem (h.resolve_right hparked)

end MemoryRegion

/-- What a turn can do to a region whose completions have distinct ids: hand over the parked
completion, fail, find nothing, hand over the completion it finds, or park it. -/
inductive Turn (m : MemoryRegion) (wrId : UInt64) (wc : Wc) :
    ℤ × MemoryRegion × Wc → Option Wc → Prop
  | parked {mine : Wc} {rest : List Wc} : m.polledWc.Perm (mine :: rest) → mine.wrId = wrId →
      Turn m wrId wc (1, ⟨m.cq, rest⟩, wc) (some mine)
  | failed : wrId ∉ m.polledWc.map Wc.wrId → Turn m wrId wc (-1, m, wc) none
  | empty : wrId ∉ m.polledWc.map Wc.wrId → m.cq = [] → Turn m wrId wc (0, m, wc) none
  | own {mine : Wc} {cq : List Wc} : wrId ∉ m.polledWc.map Wc.wrId → m.cq = mine :: cq →
      mine.wrId = wrId → Turn m wrId wc (1, ⟨cq, m.polledWc⟩, mine) (some mine)
  | other {found : Wc} {cq : List Wc} : wrId ∉ m.polledWc.map Wc.wrId → m.cq = found :: cq →
      found.wrId ≠ wrId → Turn m wrId wc (0, ⟨cq, m.polledWc ++ [found]⟩, found) none

namespace Turn

variable {m : MemoryRegion} {id : UInt64} {wc : Wc} {polled : ℤ × MemoryRegion × Wc}
  {mine : Option Wc}

/-- The completions of a region and the one handed over are those that were there. -/
lemma places (h : Turn m id wc polled mine) :
    (polled.2.1.cq ++ polled.2.1.polledWc ++ mine.toList).Perm (m.cq ++ m.polledWc) := by
  cases h with
  | @parked mine rest hperm hid =>
      refine List.Perm.trans ?_ (hperm.symm.append_left m.cq)
      rw [List.append_assoc]
      exact (List.perm_append_singleton mine rest).append_left m.cq
  | failed => simp
  | empty => simp
  | @own mine cq _ hcq _ =>
      rw [hcq]
      exact List.perm_append_singleton mine (cq ++ m.polledWc)
  | @other found cq _ hcq _ =>
      rw [hcq]
      simp [← List.append_assoc]

lemma owner (h : Turn m id wc polled mine) : ∀ c ∈ mine, c.wrId = id := by
  cases h with
  | parked _ hid => simpa using hid
  | own _ _ hid => simpa using hid
  | _ => simp

lemma result (h : Turn m id wc polled mine) : polled.1 = 1 ↔ mine.isSome := by
  cases h <;> simp

/-- A completion that is handed to nobody in this turn stays, and no farther from its poller. -/
lemma passed {id' : UInt64} (h : Turn m id wc polled mine) (harr : m.Arrived id') (hne : id' ≠ id) :
    polled.2.1.Arrived id' ∧ polled.2.1.turnsLeft id' ≤ m.turnsLeft id' := by
  cases h with
  | @parked c rest hperm hid =>
      have hmem : id' ∈ rest.map Wc.wrId ↔ id' ∈ m.polledWc.map Wc.wrId := by
        rw [(hperm.map Wc.wrId).mem_iff, List.map_cons, List.mem_cons, hid]
        exact ⟨.inr, fun h => h.resolve_left hne⟩
      refine ⟨?_, ?_⟩
      · simpa only [MemoryRegion.Arrived, List.map_append, List.mem_append, hmem] using harr
      · simp only [MemoryRegion.turnsLeft, hmem]
        exact le_rfl
  | failed => exact ⟨harr, le_rfl⟩
  | empty => exact ⟨harr, le_rfl⟩
  | @own c cq _ hcq hid =>
      have hc : c.wrId ≠ id' := fun heq => hne (heq.symm.trans hid)
      refine ⟨?_, ?_⟩
      · simpa [MemoryRegion.Arrived, hcq, hc.symm] using harr
      · simp only [MemoryRegion.turnsLeft, hcq, List.map_cons, List.idxOf_cons_ne _ hc]
        split <;> omega
  | @other found cq _ hcq hid =>
      refine ⟨?_, ?_⟩
      · simp only [MemoryRegion.Arrived, hcq, List.map_append, List.map_cons, List.cons_append,
          List.mem_cons, List.mem_append] at harr ⊢
        tauto
      · by_cases hc : found.wrId = id'
        · simp [MemoryRegion.turnsLeft, hc]
        · have hmem : id' ∈ (m.polledWc ++ [found]).map Wc.wrId ↔ id' ∈ m.polledWc.map Wc.wrId := by
            simp [Ne.symm hc]
          simp only [MemoryRegion.turnsLeft, hmem, hcq, List.map_cons, List.idxOf_cons_ne _ hc]
          split <;> omega

/-- A poller that goes on waiting has come one completion nearer to its own. -/
lemma nearer (h : Turn m id wc polled mine) (harr : m.Arrived id) (hzero : polled.1 = 0) :
    polled.2.1.Arrived id ∧ polled.2.1.turnsLeft id + 1 ≤ m.turnsLeft id := by
  cases h with
  | empty hnone hcq =>
      rw [MemoryRegion.Arrived, hcq, List.nil_append] at harr
      exact absurd harr hnone
  | @other found cq hnone hcq hid =>
      have hmem : id ∉ (m.polledWc ++ [found]).map Wc.wrId := by
        simpa [Ne.symm hid] using hnone
      refine ⟨?_, ?_⟩
      · simp only [MemoryRegion.Arrived, hcq, List.map_append, List.map_cons, List.cons_append,
          List.mem_cons, List.mem_append] at harr ⊢
        tauto
      · simp only [MemoryRegion.turnsLeft, if_neg hmem, if_neg hnone, hcq, List.map_cons,
          List.idxOf_cons_ne _ hid]
        omega
  | _ => simp at hzero

end Turn

/-- Erasing the key of a parked completion removes it alone. -/
lemma perm_cons_erase_key {polled : List Wc} {mine : Wc} (hmem : mine ∈ polled)
    (hkeys : (polled.map Wc.wrId).Nodup) :
    polled.Perm (mine :: polled.filter fun x => x.wrId ≠ mine.wrId) := by
  have hfilter : polled.filter (fun x => x.wrId ≠ mine.wrId) = polled.erase mine := by
    rw [(List.Nodup.of_map _ hkeys).erase_eq_filter]
    refine List.filter_congr fun x hx => ?_
    have hid : x.wrId = mine.wrId ↔ x = mine :=
      ⟨fun h => List.inj_on_of_nodup_map hkeys hx hmem h, fun h => h ▸ rfl⟩
    by_cases hx : x = mine
    · simp [hx]
    · simp [hid, hx, bne]
  rw [hfilter]
  exact List.perm_cons_erase hmem

lemma turn_pollOnce {m : MemoryRegion} (hkeys : ((m.cq ++ m.polledWc).map Wc.wrId).Nodup)
    (fails : Bool) (wrId : UInt64) (wc : Wc) :
    Turn m wrId wc (pollOnce fails m wrId wc) (handedOver fails m wrId) := by
  rw [List.map_append] at hkeys
  have hpolled : (m.polledWc.map Wc.wrId).Nodup := hkeys.of_append_right
  cases hfind : m.polledWc.find? (fun x => x.wrId = wrId) with
  | some mine =>
      have hid : mine.wrId = wrId := by simpa using List.find?_some hfind
      have hmem : mine ∈ m.polledWc := List.mem_of_find?_eq_some hfind
      have hany : m.polledWc.any (fun x => x.wrId = wrId) = true :=
        List.any_eq_true.mpr ⟨mine, hmem, by simpa using hid⟩
      have hperm := perm_cons_erase_key hmem hpolled
      rw [hid] at hperm
      simp only [pollOnce, handedOver, hfind, hany, if_true]
      exact .parked hperm hid
  | none =>
      have hnone : wrId ∉ m.polledWc.map Wc.wrId := by
        intro hmem
        obtain ⟨x, hx, hxid⟩ := List.mem_map.mp hmem
        have := List.find?_eq_none.mp hfind x hx
        simp [hxid] at this
      have hany : m.polledWc.any (fun x => x.wrId = wrId) = false := by
        simpa using fun x hx h => hnone (List.mem_map.mpr ⟨x, hx, h⟩)
      simp only [pollOnce, handedOver, hfind, hany, Bool.false_eq_true, if_false]
      cases fails with
      | true =>
          simp only [ibvPollCq, if_true]
          exact .failed hnone
      | false =>
          cases hcq : m.cq with
          | nil =>
              have hturn : Turn m wrId wc (0, m, wc) none := .empty hnone hcq
              obtain ⟨cq, polled⟩ := m
              subst hcq
              simpa [ibvPollCq] using hturn
          | cons found cq =>
              by_cases hid : found.wrId = wrId
              · have hturn : Turn m wrId wc (1, ⟨cq, m.polledWc⟩, found) (some found) :=
                  .own hnone hcq hid
                simpa [ibvPollCq, hid] using hturn
              · -- its id is not parked, so parking it replaces nothing
                have hfresh : found.wrId ∉ m.polledWc.map Wc.wrId := by
                  rw [hcq, List.map_cons, List.cons_append, List.nodup_cons] at hkeys
                  exact fun hmem => hkeys.1 (List.mem_append_right _ hmem)
                have hpark : park m.polledWc found = m.polledWc ++ [found] := by
                  rw [park, List.filter_eq_self.mpr]
                  intro x hx
                  simpa using fun h => hfresh (List.mem_map.mpr ⟨x, hx, h⟩)
                have hturn : Turn m wrId wc (0, ⟨cq, m.polledWc ++ [found]⟩, found) none :=
                  .other hnone hcq hid
                simpa [ibvPollCq, hid, hpark] using hturn

/-! ## Pollers -/

/-- A thread in `poll_completion`: in its loop, with the local `wc`, or returned. -/
inductive Poller
  | polling (wc : Wc)
  | returned (rc : ℕ)
deriving DecidableEq, Repr

/-- A memory region and the threads that poll it, with the completions that reached the queue and
those that were handed over, and to whom. -/
structure Polling (ι : Type) where
  memreg : MemoryRegion
  poller : ι → Poller
  completed : List Wc
  delivered : List (ι × Wc)

/-- A completion reaches the queue, or a poller takes a turn; `expired` says whether its timeout has
passed by then. -/
inductive PollEvent (ι : Type)
  | completes (wc : Wc)
  | polls (p : ι) (fails expired : Bool)
deriving DecidableEq

variable {ι : Type} [DecidableEq ι]

/-- The state after a turn of the poller `p` with the result `polled`, in which it was handed
`mine`. -/
def Polling.after (s : Polling ι) (p : ι) (expired : Bool) (polled : ℤ × MemoryRegion × Wc)
    (mine : Option Wc) : Polling ι where
  memreg := polled.2.1
  poller := update s.poller p <|
    if polled.1 = 0 ∧ expired = false then .polling polled.2.2
    else .returned (returnCode polled.1 polled.2.2)
  completed := s.completed
  delivered := s.delivered ++ (mine.map fun wc => (p, wc)).toList

/-- A turn of the poller `p`, whose local completion is `wc`. -/
def Polling.turn (s : Polling ι) (wrId : ι → UInt64) (p : ι) (wc : Wc) (fails expired : Bool) :
    Polling ι :=
  s.after p expired (pollOnce fails s.memreg (wrId p) wc) (handedOver fails s.memreg (wrId p))

/-- The steps of pollers of the ids `wrId`.  The queue yields the completions of those ids, each
once; only a poller with a timeout leaves its loop without a result. -/
def PollStep (wrId : ι → UInt64) (timeout : ι → ℕ) (s : Polling ι) : PollEvent ι → Polling ι → Prop
  | .completes wc, s' =>
      (∃ p, wc.wrId = wrId p) ∧ wc.wrId ∉ s.completed.map Wc.wrId ∧
      s' = { s with memreg := { s.memreg with cq := s.memreg.cq ++ [wc] }
                    completed := s.completed ++ [wc] }
  | .polls p fails expired, s' =>
      ∃ wc, s.poller p = .polling wc ∧ (expired → timeout p ≠ 0) ∧
        s' = s.turn wrId p wc fails expired

/-- All pollers are about to poll; nothing has completed.  Their `wc` are not initialised. -/
def Polling.start (garbage : ι → Wc) : Polling ι :=
  ⟨⟨[], []⟩, fun p => .polling (garbage p), [], []⟩

/-! ## No completion is lost or handed over twice -/

/-- Every completion is in the queue, parked or handed over, once, and to the poller of its id,
which has returned. -/
structure Polling.Conserved (wrId : ι → UInt64) (s : Polling ι) : Prop where
  once : (s.completed.map Wc.wrId).Nodup
  places : (s.memreg.cq ++ s.memreg.polledWc ++ s.delivered.map Prod.snd).Perm s.completed
  owner : ∀ d ∈ s.delivered, d.2.wrId = wrId d.1
  hasReturned : ∀ d ∈ s.delivered, ∃ rc, s.poller d.1 = .returned rc

namespace Polling

variable {wrId : ι → UInt64} {timeout : ι → ℕ} {s s' : Polling ι}

omit [DecidableEq ι] in
lemma conserved_start (garbage : ι → Wc) : (start garbage).Conserved wrId :=
  ⟨.nil, .nil, fun _ h => absurd h List.not_mem_nil, fun _ h => absurd h List.not_mem_nil⟩

omit [DecidableEq ι] in
lemma Conserved.keys (h : s.Conserved wrId) :
    ((s.memreg.cq ++ s.memreg.polledWc).map Wc.wrId).Nodup := by
  have hnodup := (h.places.map Wc.wrId).nodup_iff.mpr h.once
  rw [List.map_append] at hnodup
  exact hnodup.of_append_left

omit [DecidableEq ι] in
lemma Conserved.not_delivered {p : ι} {wc wc' : Wc} (h : s.Conserved wrId)
    (hp : s.poller p = .polling wc) : (p, wc') ∉ s.delivered := by
  intro hd
  obtain ⟨rc, hrc⟩ := h.hasReturned _ hd
  rw [hp] at hrc
  cases hrc

/-- A turn moves completions between their places. -/
lemma Conserved.after {p : ι} {wc : Wc} {expired : Bool} {polled : ℤ × MemoryRegion × Wc}
    {mine : Option Wc} (h : s.Conserved wrId) (hp : s.poller p = .polling wc)
    (hturn : Turn s.memreg (wrId p) wc polled mine) :
    (s.after p expired polled mine).Conserved wrId := by
  -- who was handed something before is another poller and stays as it is
  have hold : ∀ d ∈ s.delivered,
      ∃ rc, (s.after p expired polled mine).poller d.1 = .returned rc := by
    intro d hd
    have hne : d.1 ≠ p := by
      intro heq
      exact h.not_delivered hp (show (p, d.2) ∈ s.delivered from heq ▸ hd)
    simpa [Polling.after, update_of_ne hne] using h.hasReturned d hd
  refine ⟨h.once, ?_, ?_, ?_⟩
  · have hmove := hturn.places.append_right (s.delivered.map Prod.snd)
    refine List.Perm.trans ?_ (hmove.trans h.places)
    have hlog : ((mine.map fun c => (p, c)).toList.map Prod.snd) = mine.toList := by
      cases mine <;> rfl
    simp only [Polling.after, List.map_append, hlog, List.append_assoc]
    exact (List.perm_append_comm.append_left _).append_left _
  · intro d hd
    rcases List.mem_append.mp hd with hd | hd
    · exact h.owner d hd
    · obtain ⟨c, hc, rfl⟩ : ∃ c, mine = some c ∧ (p, c) = d := by simpa using hd
      exact hturn.owner c hc
  · intro d hd
    rcases List.mem_append.mp hd with hd | hd
    · exact hold d hd
    · obtain ⟨c, hc, rfl⟩ : ∃ c, mine = some c ∧ (p, c) = d := by simpa using hd
      have hone : polled.1 = 1 := hturn.result.mpr (by simp [hc])
      exact ⟨returnCode 1 polled.2.2, by simp [Polling.after, hone]⟩

lemma Conserved.step {a : PollEvent ι} (h : s.Conserved wrId) (hs : PollStep wrId timeout s a s') :
    s'.Conserved wrId := by
  cases a with
  | completes wc =>
      obtain ⟨-, hfresh, rfl⟩ := hs
      refine ⟨?_, ?_, h.owner, h.hasReturned⟩
      · rw [List.map_append, List.nodup_append']
        exact ⟨h.once, List.nodup_singleton _, by simpa using hfresh⟩
      · refine List.Perm.trans ?_ (h.places.append_right [wc])
        have hmove : ([wc] ++ (s.memreg.polledWc ++ s.delivered.map Prod.snd)).Perm
            (s.memreg.polledWc ++ s.delivered.map Prod.snd ++ [wc]) := List.perm_append_comm
        simpa using hmove.append_left s.memreg.cq
  | polls p fails expired =>
      obtain ⟨wc, hp, -, rfl⟩ := hs
      exact h.after hp (turn_pollOnce h.keys fails (wrId p) wc)

/-! ## Results -/

/-- If the poller `p` has returned, it returned `0` exactly when its own completion was successful.
-/
def StatusAt (s : Polling ι) (p : ι) : Prop :=
  ∀ rc, s.poller p = .returned rc →
    (rc = 0 ↔ ∃ wc, (p, wc) ∈ s.delivered ∧ wc.status = ibvWcSuccess)

/-- A poller that finds its completion parked has a status at hand that is as good. -/
def OwnStatus (wrId : ι → UInt64) (s : Polling ι) : PollEvent ι → Prop
  | .completes _ => True
  | .polls p _ _ => ∀ wc mine, s.poller p = .polling wc → mine ∈ s.memreg.polledWc →
      mine.wrId = wrId p → (wc.status = ibvWcSuccess ↔ mine.status = ibvWcSuccess)

lemma statusAt_after_of_ne {p q : ι} {expired : Bool} {polled : ℤ × MemoryRegion × Wc}
    {mine : Option Wc} (hq : q ≠ p) :
    (s.after p expired polled mine).StatusAt q ↔ s.StatusAt q := by
  have hlog (wc : Wc) : (q, wc) ∈ (s.after p expired polled mine).delivered ↔
      (q, wc) ∈ s.delivered := by
    simp [Polling.after, hq.symm]
  simp only [StatusAt, hlog]
  simp [Polling.after, update_of_ne hq]

/-- **The result of a turn** is right exactly when a parked completion is no better and no worse
than the local one. -/
lemma statusAt_after_self {p : ι} {wc : Wc} (fails expired : Bool)
    {polled : ℤ × MemoryRegion × Wc} {mine : Option Wc} (h : s.Conserved wrId)
    (hp : s.poller p = .polling wc) (hturn : Turn s.memreg (wrId p) wc polled mine) :
    (s.after p expired polled mine).StatusAt p ↔ OwnStatus wrId s (.polls p fails expired) := by
  have hlog (c : Wc) : (p, c) ∈ (s.after p expired polled mine).delivered ↔ mine = some c := by
    simp [Polling.after, h.not_delivered hp]
  have hpolled : (s.memreg.polledWc.map Wc.wrId).Nodup := by
    have hkeys := h.keys
    rw [List.map_append] at hkeys
    exact hkeys.of_append_right
  -- where nothing is parked for the poller, the condition is empty
  have hfree (hnone : wrId p ∉ s.memreg.polledWc.map Wc.wrId) :
      OwnStatus wrId s (.polls p fails expired) :=
    fun _ c _ hc hid => absurd (List.mem_map.mpr ⟨c, hc, hid⟩) hnone
  simp only [StatusAt, hlog]
  cases hturn with
  | @parked c rest hperm hid =>
      have hmem : c ∈ s.memreg.polledWc := hperm.mem_iff.mpr List.mem_cons_self
      have hreturned : (s.after p expired (1, ⟨s.memreg.cq, rest⟩, wc) (some c)).poller p
          = .returned (returnCode 1 wc) := by simp [Polling.after]
      simp only [hreturned, Poller.returned.injEq, forall_eq', returnCode_one_eq_zero,
        Option.some.injEq, exists_eq_left']
      constructor
      · intro hstatus wc' c' hwc' hc' hid'
        obtain rfl : wc = wc' := by simpa [hp] using hwc'
        obtain rfl : c' = c := List.inj_on_of_nodup_map hpolled hc' hmem (hid'.trans hid.symm)
        exact hstatus
      · intro hown
        exact hown wc c hp hmem hid
  | failed hnone => simp [Polling.after, hfree hnone]
  | empty hnone _ => cases expired <;> simp [Polling.after, hfree hnone]
  | own hnone _ _ => simp [Polling.after, hfree hnone]
  | other hnone _ _ => cases expired <;> simp [Polling.after, hfree hnone]

/-- Results stay right in a step exactly when it meets the condition. -/
lemma statusAt_step {a : PollEvent ι} (h : s.Conserved wrId) (hs : PollStep wrId timeout s a s') :
    (∀ p, s'.StatusAt p) ↔ (∀ p, s.StatusAt p) ∧ OwnStatus wrId s a := by
  cases a with
  | completes wc =>
      obtain ⟨-, -, rfl⟩ := hs
      exact ⟨fun hall => ⟨hall, trivial⟩, fun hall => hall.1⟩
  | polls p fails expired =>
      obtain ⟨wc, hp, -, rfl⟩ := hs
      have hturn := turn_pollOnce h.keys fails (wrId p) wc
      have hself := statusAt_after_self fails expired h hp hturn
      -- a poller in its loop has no result yet
      have hpolling : s.StatusAt p := by
        intro rc hrc
        rw [hp] at hrc
        cases hrc
      constructor
      · intro hall
        refine ⟨fun q => ?_, hself.mp (hall p)⟩
        by_cases hq : q = p
        · exact hq ▸ hpolling
        · exact (statusAt_after_of_ne hq).mp (hall q)
      · rintro ⟨hall, hown⟩ q
        by_cases hq : q = p
        · exact hq ▸ hself.mpr hown
        · exact (statusAt_after_of_ne hq).mpr (hall q)

/-! ## Waiting -/

/-- The number of turns a poller takes. -/
def turns (p : ι) (tr : List (PollEvent ι)) : ℕ :=
  tr.countP fun a => match a with
    | .polls q _ _ => q = p
    | .completes _ => false

/-- What has arrived stays until its poller takes it, and comes nearer with each of its turns. -/
lemma waiting_step {a : PollEvent ι} {p : ι} {wc : Wc} (hinj : Function.Injective wrId)
    (h : s.Conserved wrId) (harr : s.memreg.Arrived (wrId p)) (hs : PollStep wrId timeout s a s')
    (hp : s'.poller p = .polling wc) :
    s'.memreg.Arrived (wrId p) ∧
      s'.memreg.turnsLeft (wrId p) + turns p [a] ≤ s.memreg.turnsLeft (wrId p) := by
  cases a with
  | completes wc =>
      obtain ⟨-, -, rfl⟩ := hs
      exact ⟨(harr.enqueue wc).1, (harr.enqueue wc).2.le⟩
  | polls q fails expired =>
      obtain ⟨wc', hq, -, rfl⟩ := hs
      have hturn := turn_pollOnce h.keys fails (wrId q) wc'
      by_cases hqp : q = p
      · subst hqp
        have hzero : (pollOnce fails s.memreg (wrId q) wc').1 = 0 := by
          by_contra hne
          simp [Polling.turn, Polling.after, hne] at hp
        have hone : turns q [PollEvent.polls q fails expired] = 1 := by simp [turns]
        rw [hone]
        exact hturn.nearer harr hzero
      · have hids : wrId p ≠ wrId q := fun heq => hqp (hinj heq).symm
        have hnone : turns p [PollEvent.polls q fails expired] = 0 := by simp [turns, hqp]
        rw [hnone]
        exact hturn.passed harr hids

/-- A poller whose completion has arrived and which is still in its loop has taken no more turns
since then than there were completions before its own. -/
lemma turns_le {p : ι} {wc : Wc} {tr : List (PollEvent ι)} (hinj : Function.Injective wrId)
    (h : s.Conserved wrId) (harr : s.memreg.Arrived (wrId p))
    (hrun : Run (PollStep wrId timeout) s tr s') (hp : s'.poller p = .polling wc) :
    s'.memreg.Arrived (wrId p) ∧
      s'.memreg.turnsLeft (wrId p) + turns p tr ≤ s.memreg.turnsLeft (wrId p) := by
  induction hrun generalizing wc with
  | nil => exact ⟨harr, by simp [turns]⟩
  | @snoc tr t u a hrun hs ih =>
      -- a poller does not come back into its loop
      obtain ⟨wc', ht⟩ : ∃ wc', t.poller p = .polling wc' := by
        cases a with
        | completes c =>
            obtain ⟨-, -, rfl⟩ := hs
            exact ⟨wc, hp⟩
        | polls q fails expired =>
            obtain ⟨c, hq, -, rfl⟩ := hs
            by_cases hqp : q = p
            · exact ⟨c, hqp ▸ hq⟩
            · refine ⟨wc, ?_⟩
              have hne : p ≠ q := fun heq => hqp heq.symm
              simpa [Polling.turn, Polling.after, update_of_ne hne] using hp
      obtain ⟨harr', hle⟩ := ih ht
      have hcons : t.Conserved wrId := hrun.invariant h fun _ _ _ hi hstep => hi.step hstep
      obtain ⟨harr'', hle'⟩ := waiting_step hinj hcons harr' hs hp
      refine ⟨harr'', ?_⟩
      have hsum : turns p (tr ++ [a]) = turns p tr + turns p [a] := List.countP_append
      omega

/-- Completions reach the pollers of their ids, once, with their status. -/
structure Routed (wrId : ι → UInt64) (s : Polling ι) : Prop extends s.Conserved wrId where
  status : ∀ p, s.StatusAt p

end Polling

/-- **Completions are routed** to the pollers of their ids, each exactly once, in every
interleaving, and the results are right exactly in the runs in which every poller that finds its
completion parked has a status at hand that is as good.  A poller whose completion has arrived is
not kept waiting: it takes at most one turn for each completion before its own. -/
theorem completions_routed {wrId : ι → UInt64} (hinj : Function.Injective wrId) {timeout : ι → ℕ}
    {garbage : ι → Wc} {tr : List (PollEvent ι)} {s : Polling ι}
    (h : Run (PollStep wrId timeout) (.start garbage) tr s) :
    (s.Routed wrId ↔
      Run (Guarded (PollStep wrId timeout) (Polling.OwnStatus wrId)) (.start garbage) tr s) ∧
    ∀ p tr' t wc, s.memreg.Arrived (wrId p) → Run (PollStep wrId timeout) s tr' t →
      t.poller p = .polling wc → Polling.turns p tr' ≤ s.memreg.turnsLeft (wrId p) := by
  have hcons : s.Conserved wrId :=
    h.invariant (Polling.conserved_start garbage) fun _ _ _ hi hs => hi.step hs
  constructor
  · have hiff : (∀ p, s.StatusAt p) ↔ _ :=
      h.guarded_iff (I := fun t => t.Conserved wrId) (J := fun t => ∀ p, t.StatusAt p)
        (Polling.conserved_start garbage) (fun _ _ _ hi hs => hi.step hs)
        (fun p rc hrc => nomatch hrc) fun _ _ _ hi hs => Polling.statusAt_step hi hs
    exact ⟨fun hr => hiff.mp hr.status, fun hg => ⟨hcons, hiff.mpr hg⟩⟩
  · intro p tr' t wc harr hrun hp
    have hle := (Polling.turns_le hinj hcons harr hrun hp).2
    omega

/-! ## Two pollers -/

section TwoPollers

/-- Two work requests of a new region. -/
def twoIds : Fin 2 → UInt64 := fun i => obtained 0 i

/-- The completions arrive in the order of their requests; the second poller looks first, so it
parks the completion of the first. -/
def secondFirst (status : ℕ) : List (PollEvent (Fin 2)) :=
  [.completes ⟨0, status⟩, .completes ⟨1, 0⟩, .polls 1 false false, .polls 1 false false,
   .polls 0 false false]

/-- The pollers' variables hold zeros at first. -/
def zeroWc : Fin 2 → Wc := fun _ => ⟨0, 0⟩

omit [DecidableEq ι] in
lemma ownStatus_of {wrId : ι → UInt64} {s : Polling ι} {p : ι} {wc : Wc} {fails expired : Bool}
    (hp : s.poller p = .polling wc) (hall : ∀ mine ∈ s.memreg.polledWc, mine.wrId = wrId p →
      (wc.status = ibvWcSuccess ↔ mine.status = ibvWcSuccess)) :
    s.OwnStatus wrId (.polls p fails expired) := by
  intro wc' mine hwc' hmine hid
  obtain rfl : wc = wc' := by simpa [hp] using hwc'
  exact hall mine hmine hid

/-- Two requests that succeed: both pollers get their completions, the first from the map. -/
theorem completions_routed_two :
    ∃ s, Run (PollStep twoIds fun _ => 0) (.start zeroWc) (secondFirst 0) s ∧ s.Routed twoIds ∧
      s.delivered = [(1, ⟨1, 0⟩), (0, ⟨0, 0⟩)] := by
  have hinj : Function.Injective twoIds := obtained_injective 0 (by decide)
  obtain ⟨s, hrun, hdel⟩ : ∃ s,
      Run (Guarded (PollStep twoIds fun _ => 0) (Polling.OwnStatus twoIds)) (.start zeroWc)
        (secondFirst 0) s ∧ s.delivered = [(1, ⟨1, 0⟩), (0, ⟨0, 0⟩)] := by
    refine ⟨_, .cons ⟨trivial, ⟨0, rfl⟩, by decide, rfl⟩ <|
      .cons ⟨trivial, ⟨1, rfl⟩, by decide, rfl⟩ <|
      .cons ⟨ownStatus_of rfl (by decide), _, rfl, by decide, rfl⟩ <|
      .cons ⟨ownStatus_of rfl (by decide), _, rfl, by decide, rfl⟩ <|
      .cons ⟨ownStatus_of rfl (by decide), _, rfl, by decide, rfl⟩ .nil, by decide⟩
  exact ⟨s, hrun.of_guarded, ((completions_routed hinj hrun.of_guarded).1).mpr hrun, hdel⟩

/-- The same with a first request that failed with status 5: its poller returns `0`. -/
theorem parked_failure_returns_zero :
    ∃ s, Run (PollStep twoIds fun _ => 0) (.start zeroWc) (secondFirst 5) s ∧
      s.delivered = [(1, ⟨1, 0⟩), (0, ⟨0, 5⟩)] ∧ s.poller 0 = .returned 0 := by
  refine ⟨_, .cons ⟨⟨0, rfl⟩, by decide, rfl⟩ <| .cons ⟨⟨1, rfl⟩, by decide, rfl⟩ <|
    .cons ⟨_, rfl, by decide, rfl⟩ <| .cons ⟨_, rfl, by decide, rfl⟩ <|
    .cons ⟨_, rfl, by decide, rfl⟩ .nil, by decide, by decide⟩

end TwoPollers

end GroundDB
