import GroundDB.Lib.Run
import GroundDB.Wal.ReadRecord
import GroundDB.Wal.Record

/-!
# Waiting for the parser

Before it reads a page, a request calls `WaitParse` with its LSN, to wait until the parser has
indexed the WAL that far.  Three kinds of actors share `RpcXLogFlushedLsn`, `XLogParseUpto` and
`reachXlogTempEnd`: the WAL writer, the parser and any number of callers.

A caller leaves the loop in two ways.  It finds `XLogParseUpto` less than 64 bytes short of its
target, or it finds the flag that says that the parser has reached the end of the WAL.  Neither is
enough: another record may end in the last 64 bytes; the flag may be left from a time when less WAL
had arrived; and it may have been set while a complete record was left, since the parser sets it
whenever `XLogReadRecord` gives no record (`wait_parse_returns_early`).  Otherwise every record that
ends at or before the LSN is indexed on return: `wait_parse_indexed`.

The parser's steps come from `XLogReadRecord` (`parseNext`): it leaves no complete record when it
sets the flag, if the page requests for complete records are served (`parseNext_leaves_none`).
-/

namespace GroundDB

open Function

/-! ## The actors -/

/-- A call of `WaitParse`: its argument, and the positions at the time of the call. -/
structure WaitCall where
  lsn : ℕ
  flushedAtCall : ℕ
  parseUptoAtCall : ℕ

/-- Where a caller stands. -/
inductive Waiter
  | idle
  /-- At the test on entry. -/
  | entered (call : WaitCall)
  /-- `targetLsn` is to be computed. -/
  | choosing (call : WaitCall)
  /-- In the loop, at the first half of its condition. -/
  | testsParse (call : WaitCall) (targetLsn : ℕ)
  /-- In the loop, at the second half of its condition. -/
  | testsFlag (call : WaitCall) (targetLsn : ℕ)
  /-- Behind the loop. -/
  | leaving (call : WaitCall)
  | returned (call : WaitCall)

/-- The shared variables, the parser's progress and the callers.  `flagSetAt` is what
`RpcXLogFlushedLsn` was when `reachXlogTempEnd` was last set, and `flagLeft` whether a complete
record was left then; the code keeps neither. -/
structure WaitState where
  flushedLsn : ℕ
  parseUpto : ℕ
  reachTempEnd : Bool
  indexed : ℕ
  flagSetAt : ℕ
  flagLeft : Bool
  waiters : ℕ → Waiter

/-- Nothing has arrived and nothing is parsed. -/
def WaitState.init : WaitState := ⟨0, 0, false, 0, 0, false, fun _ => .idle⟩

/-- A step of the writer, of the parser, or of a caller. -/
inductive WaitOp
  | flush (lsn : ℕ)
  | index
  | tempEnd
  | call (i lsn : ℕ)
  | advance (i : ℕ)

/-- `XLogParseUpto` after a record is indexed. -/
def parseUptoAfter (parseUpto : ℕ) (r : WalRecord) : ℕ :=
  let upto := if r.stop > parseUpto then r.stop else parseUpto
  if r.start > upto then r.start else upto

/-- `targetLsn - 64`, which wraps around below 64. -/
def slackLsn (targetLsn : ℕ) : ℕ :=
  if targetLsn < 64 then targetLsn + 2 ^ 64 - 64 else targetLsn - 64

/-- The next step of a caller: where it stands afterwards, and the flag. -/
def waiterStep (s : WaitState) : Waiter → Option (Waiter × Bool)
  | .idle => none
  | .entered c =>
      if c.lsn > s.parseUpto ∧ s.parseUpto < s.flushedLsn ∧ s.parseUpto ≠ 0 then
        some (.choosing c, s.reachTempEnd)
      else some (.returned c, s.reachTempEnd)
  | .choosing c =>
      some (.testsParse c (if c.lsn < s.flushedLsn then c.lsn else s.flushedLsn), s.reachTempEnd)
  | .testsParse c targetLsn =>
      if s.parseUpto < slackLsn targetLsn then some (.testsFlag c targetLsn, s.reachTempEnd)
      else some (.leaving c, s.reachTempEnd)
  | .testsFlag c targetLsn =>
      if s.reachTempEnd then some (.leaving c, s.reachTempEnd)
      else some (.testsParse c targetLsn, s.reachTempEnd)
  | .leaving c => some (.returned c, if s.reachTempEnd then false else s.reachTempEnd)
  | .returned _ => none

/-- The next record is complete: it ends at or before `RpcXLogFlushedLsn`. -/
def nextComplete (w : Wal) (s : WaitState) : Bool :=
  w.records[s.indexed]?.any fun r => r.stop ≤ s.flushedLsn

/-- The effect of a step.  The parser indexes the next record, or sets the flag; what
`XLogReadRecord` gives decides which (`parseNext`). -/
def waitStep (w : Wal) (s : WaitState) : WaitOp → Option WaitState
  | .flush lsn => some { s with flushedLsn := if s.flushedLsn < lsn then lsn else s.flushedLsn }
  | .index => do
      let r ← w.records[s.indexed]?
      some { s with parseUpto := parseUptoAfter s.parseUpto r, indexed := s.indexed + 1 }
  | .tempEnd =>
      some { s with reachTempEnd := true, flagSetAt := s.flushedLsn, flagLeft := nextComplete w s }
  | .call i lsn =>
      match s.waiters i with
      | .idle =>
          let call := ⟨lsn, s.flushedLsn, s.parseUpto⟩
          some { s with waiters := update s.waiters i (.entered call) }
      | _ => none
  | .advance i => do
      let (waiter, flag) ← waiterStep s (s.waiters i)
      some { s with reachTempEnd := flag, waiters := update s.waiters i waiter }

/-- Every record that ends at or before `lsn` is among the first `indexed`. -/
def IndexedUpTo (w : Wal) (indexed lsn : ℕ) : Prop :=
  ∀ k r, w.records[k]? = some r → r.stop ≤ lsn → k < indexed

/-- The call was made with the WAL flushed up to its LSN and the parser started. -/
def WaitCall.Ready (c : WaitCall) : Prop := c.lsn ≤ c.flushedAtCall ∧ c.parseUptoAtCall ≠ 0

/-- Of two consecutive records, the first ends more than 64 bytes before `lsn` or the second ends
after it. -/
def OneRecordInSlack (w : Wal) (lsn : ℕ) : Prop :=
  ∀ k r r', w.records[k]? = some r → w.records[k + 1]? = some r' →
    r.stop < slackLsn lsn ∨ lsn < r'.stop

/-- A call is made with an LSN whose last 64 bytes hold at most one record end, and a caller that
finds the flag set finds one that was set with the WAL flushed up to its LSN and no complete record
left. -/
def NoEarlyExit (w : Wal) (s : WaitState) : WaitOp → Prop
  | .call _ lsn => lsn ≤ s.flushedLsn → s.parseUpto ≠ 0 → OneRecordInSlack w lsn
  | .advance i => ∀ c targetLsn, s.waiters i = .testsFlag c targetLsn → c.Ready →
      s.reachTempEnd = true → c.lsn ≤ s.flagSetAt ∧ s.flagLeft = false
  | _ => True

/-! ## The invariant -/

/-- What holds of a call in progress: the positions have only grown since. -/
structure CallOk (w : Wal) (s : WaitState) (c : WaitCall) : Prop where
  flushed : c.flushedAtCall ≤ s.flushedLsn
  upto : c.parseUptoAtCall ≤ s.parseUpto
  slack : c.Ready → OneRecordInSlack w c.lsn

/-- What holds of a caller. -/
def WaiterOk (w : Wal) (s : WaitState) : Waiter → Prop
  | .idle => True
  | .entered c => CallOk w s c
  | .choosing c => CallOk w s c
  | .testsParse c targetLsn => CallOk w s c ∧ (c.Ready → targetLsn = c.lsn)
  | .testsFlag c targetLsn => CallOk w s c ∧ (c.Ready → targetLsn = c.lsn)
  | .leaving c => c.Ready → IndexedUpTo w s.indexed c.lsn
  | .returned c => c.Ready → IndexedUpTo w s.indexed c.lsn

/-- The parser's position fits what it has indexed, also at the time the flag was set, and every
caller is where it should be. -/
structure WaitOk (w : Wal) (s : WaitState) : Prop where
  /-- `XLogParseUpto` is the end of the last record indexed. -/
  upto : (s.indexed = 0 ∧ s.parseUpto = 0) ∨
    ∃ k r, s.indexed = k + 1 ∧ w.records[k]? = some r ∧ s.parseUpto = r.stop
  flag : s.flagLeft = false → IndexedUpTo w s.indexed s.flagSetAt
  waiters : ∀ i, WaiterOk w s (s.waiters i)

section Steps

variable {w : Wal} {s s' : WaitState} {c : WaitCall}

lemma IndexedUpTo.mono {indexed indexed' lsn : ℕ} (h : IndexedUpTo w indexed lsn)
    (hle : indexed ≤ indexed') : IndexedUpTo w indexed' lsn :=
  fun k r hr hstop => (h k r hr hstop).trans_le hle

/-- Callers rely on positions only, and those only grow. -/
lemma WaiterOk.mono {x : Waiter} (h : WaiterOk w s x) (hflushed : s.flushedLsn ≤ s'.flushedLsn)
    (hupto : s.parseUpto ≤ s'.parseUpto) (hindexed : s.indexed ≤ s'.indexed) :
    WaiterOk w s' x := by
  have hcall : ∀ c, CallOk w s c → CallOk w s' c := fun c hc =>
    ⟨hc.flushed.trans hflushed, hc.upto.trans hupto, hc.slack⟩
  cases x with
  | idle => trivial
  | entered c => exact hcall c h
  | choosing c => exact hcall c h
  | testsParse c targetLsn => exact ⟨hcall c h.1, h.2⟩
  | testsFlag c targetLsn => exact ⟨hcall c h.1, h.2⟩
  | leaving c => exact fun hready => (h hready).mono hindexed
  | returned c => exact fun hready => (h hready).mono hindexed

/-- Records are indexed in order, so it is the next one that matters. -/
lemma indexedUpTo_of_next {indexed lsn : ℕ}
    (hnext : ∀ r, w.records[indexed]? = some r → lsn < r.stop) : IndexedUpTo w indexed lsn := by
  intro k r hr hstop
  by_contra hge
  have hlen : indexed < w.records.length := by
    have := (List.getElem?_eq_some_iff.mp hr).1
    omega
  have hget := List.getElem?_eq_getElem hlen
  have := hnext _ hget
  have := Wal.stop_le_stop hget hr (by omega)
  omega

lemma WaitOk.indexed_of_le_upto (h : WaitOk w s) {lsn : ℕ} (hle : lsn ≤ s.parseUpto) :
    IndexedUpTo w s.indexed lsn := by
  refine indexedUpTo_of_next fun r hr => ?_
  rcases h.upto with ⟨_, hzero⟩ | ⟨k, last, hk, hlast, hupto⟩
  · have := w.start_lt_stop r (List.mem_of_getElem? hr)
    omega
  · have := Wal.stop_lt_stop hlast hr (by omega)
    omega

/-- **The exit on the position.**  The last record indexed ends in the slack, so the next one
ends after the LSN. -/
lemma WaitOk.indexed_of_slack (h : WaitOk w s) {lsn : ℕ} (hslack : OneRecordInSlack w lsn)
    (hstarted : s.parseUpto ≠ 0) (hle : slackLsn lsn ≤ s.parseUpto) :
    IndexedUpTo w s.indexed lsn := by
  refine indexedUpTo_of_next fun r hr => ?_
  rcases h.upto with ⟨_, hzero⟩ | ⟨k, last, hk, hlast, hupto⟩
  · exact absurd hzero hstarted
  · rw [hk] at hr
    rcases hslack k last r hlast hr with hlt | hgt
    · omega
    · exact hgt

/-- **The flag**, set with no complete record left: everything flushed is indexed. -/
lemma indexed_of_not_complete (hnone : nextComplete w s = false) :
    IndexedUpTo w s.indexed s.flushedLsn := by
  refine indexedUpTo_of_next fun r hr => ?_
  simpa [nextComplete, hr] using hnone

/-- **A caller's step.** -/
lemma waiterStep_ok (h : WaitOk w s) {x x' : Waiter} {flag : Bool} (hx : WaiterOk w s x)
    (hflag : ∀ c targetLsn, x = .testsFlag c targetLsn → c.Ready → s.reachTempEnd = true →
      c.lsn ≤ s.flagSetAt ∧ s.flagLeft = false)
    (hstep : waiterStep s x = some (x', flag)) : WaiterOk w s x' := by
  cases x with
  | idle => cases hstep
  | entered c =>
      have hc : CallOk w s c := hx
      simp only [waiterStep] at hstep
      split_ifs at hstep with htest
      · obtain ⟨rfl, _⟩ : .choosing c = x' ∧ _ := by simpa using hstep
        exact hc
      · obtain ⟨rfl, _⟩ : .returned c = x' ∧ _ := by simpa using hstep
        rintro ⟨hflushed, hstarted⟩
        -- the parser is started and the WAL is flushed that far, so the test failed on the LSN
        have := hc.flushed
        have := hc.upto
        refine h.indexed_of_le_upto ?_
        omega
  | choosing c =>
      have hc : CallOk w s c := hx
      obtain ⟨rfl, _⟩ : .testsParse c (if c.lsn < s.flushedLsn then c.lsn else s.flushedLsn) = x' ∧
        _ := by simpa [waiterStep] using hstep
      refine ⟨hc, fun hready => ?_⟩
      have := hc.flushed
      have := hready.1
      split_ifs <;> omega
  | testsParse c targetLsn =>
      obtain ⟨hc, htarget⟩ : CallOk w s c ∧ (c.Ready → targetLsn = c.lsn) := hx
      simp only [waiterStep] at hstep
      split_ifs at hstep with htest
      · obtain ⟨rfl, _⟩ : .testsFlag c targetLsn = x' ∧ _ := by simpa using hstep
        exact ⟨hc, htarget⟩
      · obtain ⟨rfl, _⟩ : .leaving c = x' ∧ _ := by simpa using hstep
        intro hready
        have := hc.upto
        have := hready.2
        rw [htarget hready] at htest
        exact h.indexed_of_slack (hc.slack hready) (by omega) (by omega)
  | testsFlag c targetLsn =>
      simp only [waiterStep] at hstep
      split_ifs at hstep with htest
      · obtain ⟨rfl, _⟩ : .leaving c = x' ∧ _ := by simpa using hstep
        intro hready k r hr hstop
        obtain ⟨hle, hleft⟩ := hflag c targetLsn rfl hready htest
        exact h.flag hleft k r hr (hstop.trans hle)
      · obtain ⟨rfl, _⟩ : .testsParse c targetLsn = x' ∧ _ := by simpa using hstep
        exact hx
  | leaving c =>
      obtain ⟨rfl, _⟩ : .returned c = x' ∧ _ := by simpa [waiterStep] using hstep
      exact hx
  | returned c => cases hstep

/-- **The parser indexes a record** and moves `XLogParseUpto` to its end. -/
lemma index_ok (h : WaitOk w s) (hstep : waitStep w s .index = some s') : WaitOk w s' := by
  simp only [waitStep, Option.bind_eq_bind, Option.bind_eq_some_iff] at hstep
  obtain ⟨r, hr, hstep⟩ := hstep
  obtain rfl := Option.some.inj hstep
  have hstart := w.start_lt_stop r (List.mem_of_getElem? hr)
  have hgrows : s.parseUpto < r.stop := by
    rcases h.upto with ⟨_, hzero⟩ | ⟨k, last, hk, hlast, hupto⟩
    · omega
    · have := Wal.stop_lt_stop hlast hr (by omega)
      omega
  have hafter : parseUptoAfter s.parseUpto r = r.stop := by
    rw [parseUptoAfter, if_pos hgrows, if_neg (by omega)]
  refine ⟨Or.inr ⟨s.indexed, r, rfl, hr, hafter⟩, fun hleft =>
    (h.flag hleft).mono (Nat.le_succ _), fun i => ?_⟩
  refine (h.waiters i).mono le_rfl ?_ (Nat.le_succ _)
  change s.parseUpto ≤ parseUptoAfter s.parseUpto r
  omega

/-- **A caller comes in or moves on.** -/
lemma WaitOk.update_waiter (h : WaitOk w s) {i : ℕ} {x : Waiter} {flag : Bool}
    (hx : WaiterOk w s x) :
    WaitOk w { s with reachTempEnd := flag, waiters := update s.waiters i x } := by
  refine ⟨h.upto, h.flag, fun j => ?_⟩
  by_cases hj : j = i
  · subst hj
    simp only [update_self]
    exact hx.mono le_rfl le_rfl le_rfl
  · simp only [update_of_ne hj]
    exact (h.waiters j).mono le_rfl le_rfl le_rfl

/-- One step of an actor. -/
def WaitStep (w : Wal) (s : WaitState) (op : WaitOp) (s' : WaitState) : Prop :=
  waitStep w s op = some s'

/-- **Every step** that is no early exit keeps the callers in order. -/
theorem waitStep_ok {op : WaitOp} (h : WaitOk w s)
    (hstep : Lts.Guarded (WaitStep w) (NoEarlyExit w) s op s') : WaitOk w s' := by
  obtain ⟨hguard, hstep⟩ := hstep
  cases op with
  | flush lsn =>
      obtain rfl := Option.some.inj hstep
      refine ⟨h.upto, h.flag, fun i => (h.waiters i).mono ?_ le_rfl le_rfl⟩
      change s.flushedLsn ≤ if s.flushedLsn < lsn then lsn else s.flushedLsn
      split_ifs <;> omega
  | index => exact index_ok h hstep
  | tempEnd =>
      obtain rfl := Option.some.inj hstep
      exact ⟨h.upto, indexed_of_not_complete, fun i => (h.waiters i).mono le_rfl le_rfl le_rfl⟩
  | call i lsn =>
      cases hi : s.waiters i with
      | idle =>
          simp only [WaitStep, waitStep, hi, Option.some.injEq] at hstep
          subst hstep
          exact h.update_waiter ⟨le_rfl, le_rfl, fun hready => hguard hready.1 hready.2⟩
      | _ => simp [WaitStep, waitStep, hi] at hstep
  | advance i =>
      simp only [WaitStep, waitStep, Option.bind_eq_bind, Option.bind_eq_some_iff] at hstep
      obtain ⟨⟨x, flag⟩, hx, hstep⟩ := hstep
      obtain rfl := Option.some.inj hstep
      exact h.update_waiter (waiterStep_ok h (h.waiters i) hguard hx)

lemma waitOk_init : WaitOk w WaitState.init := by
  refine ⟨Or.inl ⟨rfl, rfl⟩, fun _ k r hr hstop => ?_, fun _ => trivial⟩
  have := w.start_lt_stop r (List.mem_of_getElem? hr)
  change r.stop ≤ 0 at hstop
  omega

/-- **Read your writes.**  In every run without early exits, a call that was made with the WAL
flushed up to its LSN and the parser started returns only when every record that ends at or before
its LSN is indexed. -/
theorem wait_parse_indexed {tr : List WaitOp}
    (hrun : Lts.Run (Lts.Guarded (WaitStep w) (NoEarlyExit w)) WaitState.init tr s) {i : ℕ}
    (hret : s.waiters i = .returned c) (hflushed : c.lsn ≤ c.flushedAtCall)
    (hstarted : c.parseUptoAtCall ≠ 0) : IndexedUpTo w s.indexed c.lsn := by
  have hok := hrun.invariant waitOk_init fun _ _ _ h hs => waitStep_ok h hs
  have hi := hok.waiters i
  rw [hret] at hi
  exact hi ⟨hflushed, hstarted⟩

end Steps

/-! ## Where the parser's steps come from -/

section Parser

variable {env : WalEnv} {w : Wal} {totalLen : ℕ → ℕ} {s : WaitState} {rst rst' : RecordReader}
  {r : WalRecord}

/-- `ReadRecord` for the next record, of `xl_tot_len` bytes, and what follows: the record is
indexed, or, where `XLogReadRecord` gives none, the flag is set.  It does not come back while it
waits for WAL. -/
def parseNext (env : WalEnv) (w : Wal) (totalLen : ℕ → ℕ) (fuel : ℕ) (s : WaitState)
    (rst : RecordReader) : Option (WaitOp × RecordReader) := do
  let r ← w.records[s.indexed]?
  let (found, rst') ← xLogReadRecord env fuel s.flushedLsn r.start (totalLen s.indexed) rst
  some (if found.isSome then .index else .tempEnd, rst')

/-- **The parser indexes the next record** exactly if the page requests for it are served. -/
theorem parseNext_index_iff (hst : StorageReader rst.reader) (hr : w.records[s.indexed]? = some r)
    (hpos : 0 < totalLen s.indexed)
    (hread : ∀ p, xlogBlcksz ∣ p → p < recordEnd env r.start (totalLen s.indexed) →
      PageReadable env p) (fuel : ℕ) :
    (∃ rst', parseNext env w totalLen (fuel + 1) s rst = some (.index, rst')) ↔
      AllServed env s.flushedLsn (recordRequests env rst.segNo r.start (totalLen s.indexed))
        rst.reader := by
  simp only [parseNext, hr, Option.bind_eq_bind, Option.bind_some]
  constructor
  · rintro ⟨rst', h⟩
    obtain ⟨⟨found, rst''⟩, hfound, heq⟩ := Option.bind_eq_some_iff.mp h
    cases found with
    | none => simp at heq
    | some stop => exact ((xLogReadRecord_iff hst hpos hread fuel).mp ⟨rst'', hfound⟩).2
  · intro hs
    obtain ⟨rst', hfound⟩ := (xLogReadRecord_iff hst hpos hread fuel).mpr ⟨rfl, hs⟩
    exact ⟨rst', by simp [hfound]⟩

/-- **The parser leaves no complete record** when it sets the flag, if the page requests for
complete records are served. -/
theorem parseNext_leaves_none (hst : StorageReader rst.reader) (hpos : 0 < totalLen s.indexed)
    (hread : ∀ p, xlogBlcksz ∣ p → PageReadable env p)
    (hserved : ∀ r, w.records[s.indexed]? = some r → r.stop ≤ s.flushedLsn →
      AllServed env s.flushedLsn (recordRequests env rst.segNo r.start (totalLen s.indexed))
        rst.reader) {fuel : ℕ}
    (hparse : parseNext env w totalLen (fuel + 1) s rst = some (.tempEnd, rst')) :
    ∃ s', WaitStep w s .tempEnd s' ∧ s'.flagLeft = false := by
  refine ⟨_, rfl, ?_⟩
  by_contra hleft
  simp only [nextComplete, Bool.not_eq_false, Option.any_eq_true, decide_eq_true_eq] at hleft
  obtain ⟨r, hr, hstop⟩ := hleft
  obtain ⟨rst'', hindex⟩ := (parseNext_index_iff hst hr hpos (fun p hp _ => hread p hp) fuel).mpr
    (hserved r hr hstop)
  rw [hparse] at hindex
  cases hindex

end Parser

/-! ### Two records -/

/-- A record that ends at 200, followed by one that ends at `stop`. -/
def twoRecords (stop : ℕ) (h : 200 < stop) : Wal where
  origin := 100
  records := [⟨100, 200, []⟩, ⟨200, stop, []⟩]
  start_lt_stop := by simpa using h
  origin_le := by simp
  ordered := by simp

lemma oneRecordInSlack_twoRecords : OneRecordInSlack (twoRecords 400 (by decide)) 400 := by
  intro k r r' hr hr'
  match k with
  | 0 =>
      cases hr
      exact Or.inl (by decide)
  | k + 1 => cases hr'

/-- A call that waits until the second record, of 200 bytes, is indexed. -/
theorem wait_parse_indexed_two_records :
    ∃ s c, Lts.Run (WaitStep (twoRecords 400 (by decide))) WaitState.init
        [.flush 400, .index, .call 0 400, .advance 0, .advance 0, .advance 0, .advance 0, .index,
          .advance 0, .advance 0] s ∧
      s.waiters 0 = .returned c ∧ c.lsn = 400 ∧
      IndexedUpTo (twoRecords 400 (by decide)) s.indexed c.lsn := by
  have hex : ∃ s c, Lts.Run (Lts.Guarded (WaitStep (twoRecords 400 (by decide)))
        (NoEarlyExit (twoRecords 400 (by decide)))) WaitState.init
        [.flush 400, .index, .call 0 400, .advance 0, .advance 0, .advance 0, .advance 0, .index,
          .advance 0, .advance 0] s ∧
      s.waiters 0 = .returned c ∧ c.lsn = 400 ∧ c.lsn ≤ c.flushedAtCall ∧ c.parseUptoAtCall ≠ 0 :=
    ⟨_, _, .cons ⟨trivial, rfl⟩ (.cons ⟨trivial, rfl⟩
      (.cons ⟨fun _ _ => oneRecordInSlack_twoRecords, rfl⟩
      (.cons ⟨nofun, rfl⟩ (.cons ⟨nofun, rfl⟩ (.cons ⟨nofun, rfl⟩ (.cons ⟨nofun, rfl⟩
      (.cons ⟨trivial, rfl⟩ (.cons ⟨nofun, rfl⟩ (.cons ⟨nofun, rfl⟩ .nil))))))))),
      rfl, rfl, by decide, by decide⟩
  obtain ⟨s, c, hrun, hret, hlsn, hflushed, hstarted⟩ := hex
  exact ⟨s, c, hrun.of_guarded, hret, hlsn, wait_parse_indexed hrun hret hflushed hstarted⟩

/-- Records on both sides of a page boundary: the second one lies behind the page header. -/
def boundaryRecords : Wal where
  origin := 24000
  records := [⟨24000, 24576, []⟩, ⟨24600, 24656, []⟩]
  start_lt_stop := by simp
  origin_le := by simp
  ordered := by simp

/-- A call returns although the second record is flushed and not indexed: when this record is 40
bytes long, because `XLogParseUpto` is in the slack; when it is longer, because the flag is still
set from before the record arrived; and when it is on the flush position's page, because the parser
got no record there and set the flag. -/
theorem wait_parse_returns_early :
    (∃ s c, Lts.Run (WaitStep (twoRecords 240 (by decide))) WaitState.init
        [.flush 240, .index, .call 0 240, .advance 0, .advance 0, .advance 0, .advance 0] s ∧
      s.waiters 0 = .returned c ∧ c.lsn ≤ c.flushedAtCall ∧ c.parseUptoAtCall ≠ 0 ∧
      ¬ IndexedUpTo (twoRecords 240 (by decide)) s.indexed c.lsn) ∧
    (∃ s c, Lts.Run (WaitStep (twoRecords 400 (by decide))) WaitState.init
        [.flush 200, .index, .tempEnd, .flush 400, .call 0 400, .advance 0, .advance 0, .advance 0,
          .advance 0, .advance 0] s ∧
      s.waiters 0 = .returned c ∧ c.lsn ≤ c.flushedAtCall ∧ c.parseUptoAtCall ≠ 0 ∧
      ¬ IndexedUpTo (twoRecords 400 (by decide)) s.indexed c.lsn) ∧
    ∃ s₀ s c, Lts.Run (WaitStep boundaryRecords) WaitState.init [.flush 24800, .index] s₀ ∧
      (∃ rst', parseNext walOnDisk boundaryRecords (fun _ => 50) 1 s₀ ⟨freshReader, 0⟩
        = some (.tempEnd, rst')) ∧
      Lts.Run (WaitStep boundaryRecords) s₀ [.tempEnd, .call 0 24656, .advance 0, .advance 0,
        .advance 0, .advance 0, .advance 0] s ∧
      s.waiters 0 = .returned c ∧ c.lsn ≤ c.flushedAtCall ∧ c.parseUptoAtCall ≠ 0 ∧
      ¬ IndexedUpTo boundaryRecords s.indexed c.lsn := by
  refine ⟨⟨_, _, .cons rfl (.cons rfl (.cons rfl (.cons rfl (.cons rfl (.cons rfl
    (.cons rfl .nil)))))), rfl, by decide, by decide, fun h => ?_⟩,
    ⟨_, _, .cons rfl (.cons rfl (.cons rfl (.cons rfl (.cons rfl (.cons rfl (.cons rfl
    (.cons rfl (.cons rfl (.cons rfl .nil))))))))), rfl, by decide, by decide, fun h => ?_⟩,
    _, _, _, .cons rfl (.cons rfl .nil), ⟨_, rfl⟩, .cons rfl (.cons rfl (.cons rfl (.cons rfl
    (.cons rfl (.cons rfl (.cons rfl .nil)))))), rfl, by decide, by decide, fun h => ?_⟩
  · exact absurd (h 1 _ rfl le_rfl) (by decide)
  · exact absurd (h 1 _ rfl le_rfl) (by decide)
  · exact absurd (h 1 _ rfl le_rfl) (by decide)

end GroundDB
