import Mathlib.Tactic

/-!
# The deadline of the wait for new WAL

The startup process of the storage node waits for WAL in `WaitForNewXLog`, which computes an
absolute deadline for `pthread_cond_timedwait`.  The product `wait_usec*1000` is taken in 32 bits,
and the nanoseconds of the wait are added to those of the clock without a carry into the seconds.

* `wakeup_deadline_exact_iff`: the deadline is right just for waits that fit 32 bits in nanoseconds
  and add less than what is missing to the next full second.
* `startup_wait`: the one caller asks for five seconds.  It waits 0.7 seconds or, during most of
  each second, not at all.
-/

namespace GroundDB

/-- `struct timeval` as `gettimeofday` returns it. -/
structure Timeval where
  tvSec : ℤ
  tvUsec : ℕ
  tvUsec_lt : tvUsec < 1000000

/-- `struct timespec`. -/
structure Timespec where
  tvSec : ℤ
  tvNsec : ℤ
deriving DecidableEq, Repr

/-- A point in time in nanoseconds. -/
def Timeval.nanoseconds (tp : Timeval) : ℤ := tp.tvSec * 1000000000 + tp.tvUsec * 1000

/-- A point in time in nanoseconds. -/
def Timespec.nanoseconds (ts : Timespec) : ℤ := ts.tvSec * 1000000000 + ts.tvNsec

/-- The nanoseconds are less than a second. -/
def Timespec.Normalised (ts : Timespec) : Prop := 0 ≤ ts.tvNsec ∧ ts.tvNsec < 1000000000

instance (ts : Timespec) : Decidable ts.Normalised :=
  inferInstanceAs (Decidable (_ ∧ _))

/-- The deadline `WaitForNewXLog` computes at the time `tp`.  `wait_usec*1000` is a `uint32_t`. -/
def waitForNewXLog (tp : Timeval) (waitUsec : UInt32) : Timespec :=
  { tvSec := tp.tvSec + ((waitUsec * 1000) / 1000000000).toNat
    tvNsec := tp.tvUsec * 1000 + ((waitUsec * 1000) % 1000000000).toNat }

/-- How long `pthread_cond_timedwait` waits at most, in nanoseconds: until the deadline, and not at
all if the deadline is not normalised (`EINVAL`). -/
def timedWait (tp : Timeval) (ts : Timespec) : ℤ :=
  if ts.Normalised then max 0 (ts.nanoseconds - tp.nanoseconds) else 0

section Deadline

variable (tp : Timeval) (waitUsec : UInt32)

lemma waitForNewXLog_tvSec : (waitForNewXLog tp waitUsec).tvSec =
    tp.tvSec + (waitUsec.toNat * 1000 % 2 ^ 32 / 1000000000 : ℕ) := by
  simp [waitForNewXLog]

lemma waitForNewXLog_tvNsec : (waitForNewXLog tp waitUsec).tvNsec =
    tp.tvUsec * 1000 + (waitUsec.toNat * 1000 % 2 ^ 32 % 1000000000 : ℕ) := by
  simp [waitForNewXLog]

/-- The deadline lies behind the clock by the wait, cut off to 32 bits. -/
lemma waitForNewXLog_nanoseconds : (waitForNewXLog tp waitUsec).nanoseconds =
    tp.nanoseconds + (waitUsec.toNat * 1000 % 2 ^ 32 : ℕ) := by
  rw [Timespec.nanoseconds, Timeval.nanoseconds, waitForNewXLog_tvSec, waitForNewXLog_tvNsec]
  omega

/-- Only the upper end can be missed. -/
lemma waitForNewXLog_normalised_iff : (waitForNewXLog tp waitUsec).Normalised ↔
    tp.tvUsec * 1000 + waitUsec.toNat * 1000 % 2 ^ 32 % 1000000000 < 1000000000 := by
  rw [Timespec.Normalised, waitForNewXLog_tvNsec]
  omega

/-- **The deadline** is normalised and denotes the current time plus `wait_usec` microseconds just
if `wait_usec * 1000` fits 32 bits and its part below a full second does not run into the next
second of the clock. -/
theorem wakeup_deadline_exact_iff :
    ((waitForNewXLog tp waitUsec).Normalised ∧
      (waitForNewXLog tp waitUsec).nanoseconds = tp.nanoseconds + waitUsec.toNat * 1000) ↔
    waitUsec.toNat ≤ 4294967 ∧ tp.tvUsec + waitUsec.toNat % 1000000 < 1000000 := by
  rw [waitForNewXLog_normalised_iff, waitForNewXLog_nanoseconds]
  have hfits : tp.nanoseconds + (waitUsec.toNat * 1000 % 2 ^ 32 : ℕ) =
      tp.nanoseconds + waitUsec.toNat * 1000 ↔ waitUsec.toNat ≤ 4294967 := by
    omega
  rw [hfits, and_comm]
  refine and_congr_right fun hle => ?_
  -- without a wrap both sides count the same part of a second, one of them in microseconds
  rw [Nat.mod_eq_of_lt (by omega : waitUsec.toNat * 1000 < 2 ^ 32)]
  omega

/-- The call of `WaitForWALToBecomeAvailable`, made on the full second: instead of five seconds the
deadline is 705032704 nanoseconds ahead. -/
theorem five_seconds_cut_off :
    waitForNewXLog ⟨1680000000, 0, by decide⟩ 5000000 = ⟨1680000000, 705032704⟩ ∧
      (waitForNewXLog ⟨1680000000, 0, by decide⟩ 5000000).nanoseconds ≠
        Timeval.nanoseconds ⟨1680000000, 0, by decide⟩ + 5000000 * 1000 := by
  decide

/-- **The startup process**, which asks for five seconds, waits 705 milliseconds, and not at all
when more than 294967 microseconds of the current second have passed. -/
theorem startup_wait :
    timedWait tp (waitForNewXLog tp 5000000) = if tp.tvUsec ≤ 294967 then 705032704 else 0 := by
  have hnormal : (waitForNewXLog tp 5000000).Normalised ↔ tp.tvUsec ≤ 294967 := by
    rw [waitForNewXLog_normalised_iff]
    simp only [UInt32.reduceToNat]
    omega
  have hnano := waitForNewXLog_nanoseconds tp 5000000
  simp only [UInt32.reduceToNat] at hnano
  simp only [timedWait, hnormal, hnano]
  split_ifs
  · omega
  · rfl

end Deadline

end GroundDB
