import GroundDB.Lib.Chunks
import GroundDB.Rdma.Completion

/-!
# Polling a batch of completions

`RDMA_Manager::poll_completion` waits for `num_entries` completions and stores them into the array
`wc_p`, one behind the other (`Chunks.fill` with the place behind what has been counted).  Each call
of `ibv_poll_cq` asks for `num_entries` completions, also when some have been taken already.

* `poll_completion_exact_iff`: the call stays inside the array, and takes what it was asked for when
  it succeeds, just if no poll gives more than what is missing.
* `poll_completion_returns`: polls that fit and are enough make it succeed.
-/

namespace GroundDB

open Chunks Memory

/-- How a call ends: it still polls, an assertion fails, or it returns. -/
inductive PollOutcome
  | polling
  | aborted
  | returned (rc : ℤ)
deriving DecidableEq, Repr

/-- What a call leaves behind: the memory and the number of completions taken off the queue. -/
structure BatchPoll where
  outcome : PollOutcome
  mem : ℤ → Wc
  taken : ℕ

/-- `do { … } while (poll_num < num_entries)`.  `polls` are the results of
`ibv_poll_cq(cq, num_entries, &wc_p[poll_num])`; a negative one breaks off. -/
def pollLoop (numEntries : Int32) (polls : List (Result numEntries.toInt.toNat)) (wcP : ℤ)
    (cq : ℕ → Wc) (mem : ℤ → Wc) : Status × State Wc :=
  match polls with
  | [] => (.waiting, ⟨0, 0, 0, mem⟩)
  | .failed :: _ => (.failed, ⟨0, -1, 0, mem⟩)
  | .got n :: polls =>
      fill numEntries (behind wcP) cq polls (State.got (behind wcP) cq ⟨0, 0, 0, mem⟩ n)

/-- The loop over the statuses of `wc_p[0]` to `wc_p[num_entries - 1]`. -/
def allSucceeded (numEntries : Int32) (wcP : ℤ) (mem : ℤ → Wc) : Bool :=
  (List.range numEntries.toInt.toNat).all fun i : ℕ => (mem (wcP + i)).status == ibvWcSuccess

/-- What follows the loop.  `ndebug` says that assertions are compiled out. -/
def pollResult (ndebug : Bool) (numEntries : Int32) (wcP : ℤ) : Status × State Wc → PollOutcome
  | (.waiting, _) => .polling
  | (_, st) =>
      if ndebug = false ∧ st.total ≠ numEntries then .aborted
      else if st.last < 0 then .returned 1
      else if st.last = 0 then .returned 1
      else if allSucceeded numEntries wcP st.mem then .returned 0
      else if ndebug then .returned 1
      else .aborted

/-- `RDMA_Manager::poll_completion` on the queue `cq`. -/
def pollCompletion (ndebug : Bool) (numEntries : Int32)
    (polls : List (Result numEntries.toInt.toNat)) (wcP : ℤ) (cq : ℕ → Wc) (mem : ℤ → Wc) :
    BatchPoll :=
  let loop := pollLoop numEntries polls wcP cq mem
  { outcome := pollResult ndebug numEntries wcP loop, mem := loop.2.mem, taken := loop.2.taken }

/-- The call writes into the array only; when it succeeds, it has taken as many completions as it
was asked for and stored each in its own slot, in the order of arrival. -/
structure BatchPoll.Exact (numEntries : Int32) (wcP : ℤ) (cq : ℕ → Wc) (mem : ℤ → Wc)
    (out : BatchPoll) : Prop where
  inside : SameOutside wcP numEntries.toInt.toNat mem out.mem
  taken_eq : out.outcome = .returned 0 → out.taken = numEntries.toInt.toNat
  stored : out.outcome = .returned 0 →
    ∀ i < numEntries.toInt.toNat, out.mem (wcP + i) = cq i

section Exact

variable {ndebug : Bool} {numEntries : Int32} {polls : List (Result numEntries.toInt.toNat)}
  {wcP : ℤ} {cq : ℕ → Wc} {mem : ℤ → Wc}

/-- For at least one entry the condition may as well be checked first. -/
lemma pollLoop_eq_fill (hpos : 0 < numEntries.toInt) :
    pollLoop numEntries polls wcP cq mem =
      fill numEntries (behind wcP) cq polls ⟨0, 0, 0, mem⟩ := by
  have hlt : (⟨0, 0, 0, mem⟩ : State Wc).total < numEntries :=
    (counts_start 0 mem).lt_iff.mpr hpos
  match polls with
  | [] => simp only [pollLoop, fill, if_pos hlt]
  | .failed :: _ => simp only [pollLoop, fill, if_pos hlt]
  | .got n :: polls => rw [fill_got hlt, pollLoop]

lemma appended_start (wcP : ℤ) (cq : ℕ → Wc) (mem : ℤ → Wc) (hpos : 0 < numEntries.toInt) :
    Appended numEntries wcP cq mem ⟨0, 0, 0, mem⟩ :=
  ⟨counts_start 0 mem, by simpa using hpos.le, by simp [piece]⟩

lemma full_of_returned {loop : Status × State Wc} (hlast : loop.1 = .failed → loop.2.last = -1)
    (h : pollResult ndebug numEntries wcP loop = .returned 0) : loop.1 = .full := by
  obtain ⟨status, st⟩ := loop
  cases status with
  | full => rfl
  | waiting => cases h
  | failed =>
      have hneg : st.last < 0 := by
        rw [show st.last = -1 from hlast rfl]
        decide
      simp only [pollResult, hneg, if_true] at h
      split_ifs at h
      cases h

lemma pollResult_full {loop : Status × State Wc} (hfull : loop.1 = .full)
    (htotal : loop.2.total = numEntries) (hlast : 0 < loop.2.last)
    (hgood : allSucceeded numEntries wcP loop.2.mem = true) :
    pollResult ndebug numEntries wcP loop = .returned 0 := by
  obtain ⟨status, st⟩ := loop
  subst hfull
  have hneg : ¬ st.last < 0 := Int32.not_lt.mpr (Int32.le_of_lt hlast)
  have hzero : st.last ≠ 0 := (Int32.ne_of_lt hlast).symm
  simp only at htotal hgood
  simp [pollResult, htotal, hneg, hzero, hgood]

/-- **Polls that fit** make the call exact. -/
lemma pollCompletion_exact (ndebug : Bool) (cq : ℕ → Wc) (mem : ℤ → Wc)
    (hpos : 0 < numEntries.toInt) (hfits : Fits numEntries.toInt.toNat polls) :
    (pollCompletion ndebug numEntries polls wcP cq mem).Exact numEntries wcP cq mem := by
  obtain ⟨happ, hfull⟩ := fill_fits (appended_start wcP cq mem hpos) hfits
  rw [← pollLoop_eq_fill hpos] at happ hfull
  have hle := happ.taken_le
  have hall : (pollCompletion ndebug numEntries polls wcP cq mem).outcome = .returned 0 →
      (pollLoop numEntries polls wcP cq mem).2.taken = numEntries.toInt.toNat := by
    intro hzero
    have hend := hfull (full_of_returned (pollLoop_eq_fill hpos ▸ last_of_failed) hzero)
    omega
  refine ⟨?_, hall, ?_⟩
  · rw [pollCompletion, happ.mem_eq]
    exact SameOutside.refl.write (by rw [length_piece]; omega)
  · intro hzero i hi
    rw [pollCompletion, happ.mem_eq, hall hzero]
    simpa using write_piece mem wcP cq 0 hi

/-- **A poll that gives more than what is missing** writes behind the array. -/
lemma fits_of_exact (hpos : 0 < numEntries.toInt)
    (h : (pollCompletion ndebug numEntries polls wcP (fun _ => ⟨1, 0⟩) fun _ => ⟨0, 0⟩).Exact
      numEntries wcP (fun _ => ⟨1, 0⟩) fun _ => ⟨0, 0⟩) : Fits numEntries.toInt.toNat polls := by
  by_contra hover
  have hcell := fill_overshoot (appended_start wcP (fun _ => ⟨1, 0⟩) (fun _ => ⟨0, 0⟩) hpos) hover
  rw [← pollLoop_eq_fill hpos] at hcell
  have hsame := h.inside (wcP + numEntries.toInt) (by omega)
  simp [pollCompletion, hcell] at hsame

/-- **Batch polling.**  With or without assertions, the call writes into the array only, and on
success has taken `num_entries` completions, each stored in its own slot in the order of arrival,
for all completions and memories just if no poll gives more than what is missing. -/
theorem poll_completion_exact_iff (ndebug : Bool) (numEntries : Int32)
    (polls : List (Result numEntries.toInt.toNat)) (wcP : ℤ) (hpos : 1 ≤ numEntries.toInt) :
    (∀ cq mem, (pollCompletion ndebug numEntries polls wcP cq mem).Exact numEntries wcP cq mem) ↔
      Fits numEntries.toInt.toNat polls := by
  constructor
  · exact fun h => fits_of_exact hpos (h _ _)
  · exact fun h cq mem => pollCompletion_exact ndebug cq mem hpos h

/-- Two completions that come one by one are taken as they should. -/
theorem poll_completion_one_by_one :
    1 ≤ (2 : Int32).toInt ∧
      ∀ cq mem, (pollCompletion false 2 [.got 1, .got 1] 0 cq mem).Exact 2 0 cq mem := by
  refine ⟨by decide, (poll_completion_exact_iff false 2 [.got 1, .got 1] 0 (by decide)).mpr ?_⟩
  exact ⟨by decide, by decide, trivial⟩

/-- Two completions are asked for, and the second poll gives two after the first gave one.  The
second slot behind the array is written; with assertions the call aborts after that, without them it
returns success having taken three. -/
theorem second_poll_overshoots :
    let cq : ℕ → Wc := fun i => ⟨UInt64.ofNat i, 0⟩
    let out := fun ndebug => pollCompletion ndebug 2 [.got 1, .got 2] 0 cq fun _ => ⟨9, 9⟩
    (out true).outcome = .returned 0 ∧ (out true).taken = 3 ∧ (out true).mem 2 = ⟨2, 0⟩ ∧
      (out false).outcome = .aborted ∧ (out false).mem 2 = ⟨2, 0⟩ := by
  decide

/-- **Polls that fit and are enough** make the call succeed if all completions did. -/
theorem poll_completion_returns (ndebug : Bool) (hpos : 0 < numEntries.toInt)
    (hfits : Fits numEntries.toInt.toNat polls) (henough : numEntries.toInt ≤ delivered polls)
    (hstatus : ∀ i < numEntries.toInt.toNat, (cq i).status = ibvWcSuccess) :
    (pollCompletion ndebug numEntries polls wcP cq mem).outcome = .returned 0 := by
  have hstart := appended_start wcP cq mem hpos
  obtain ⟨hfull, hlast⟩ := fill_full hstart (hstart.counts.lt_iff.mpr hpos) hfits (by simpa)
  obtain ⟨happ, hall⟩ := fill_fits hstart hfits
  replace hall := hall hfull
  rw [← pollLoop_eq_fill hpos] at hfull hlast happ hall
  refine pollResult_full hfull (Int32.toInt_inj.mp (happ.counts.trans hall)) hlast ?_
  refine List.all_eq_true.mpr fun i hi => beq_iff_eq.mpr ?_
  have hcell := write_piece mem wcP cq 0 (List.mem_range.mp hi)
  rw [zero_add] at hcell
  rw [happ.mem_eq, show (pollLoop numEntries polls wcP cq mem).2.taken = numEntries.toInt.toNat by
    omega, hcell]
  exact hstatus i (List.mem_range.mp hi)

theorem poll_completion_returns_one_by_one :
    (pollCompletion false 2 [.got 1, .got 1] 0 (fun _ => ⟨0, ibvWcSuccess⟩)
      fun _ => ⟨9, 9⟩).outcome = .returned 0 :=
  poll_completion_returns false (by decide) ⟨by decide, by decide, trivial⟩ (by decide)
    fun _ _ => rfl

end Exact

end GroundDB
