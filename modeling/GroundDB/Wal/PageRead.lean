import GroundDB.Wal.Layout
import Mathlib.Data.Int.Basic
import Mathlib.Tactic.Set

/-!
# Reading WAL pages on the storage node

The parser reads the WAL page by page.  `XLogPageRead` keeps a segment file open, asks
`WaitForWALToBecomeAvailable` when there is none or when too little WAL has arrived, and takes the
page from the ring or from the file.  The storage node runs it with `IsRpcServer` set, outside
standby mode: it tries the archive and `pg_wal` and then stays with the source `XLOG_FROM_RPC`, the
WAL that compute nodes send.

WAL that arrives while the parser sleeps is a list of flush positions, one for each return of
`WaitForNewXLog`; when the list is empty, nothing arrives any more.
-/

namespace GroundDB

/-! ## The state -/

/-- `XLogSource`. -/
inductive XLogSource
  | any
  | archive
  | pgWal
  | stream
  | rpc
deriving DecidableEq, Repr

/-- The reader's variables.  `readFile` says whether a segment file is open. -/
structure Reader where
  readFile : Bool
  readSegNo : ℕ
  readSource : XLogSource
  currentSource : XLogSource
  lastSourceFailed : Bool
  reachTempEnd : Bool
  /-- The position of a WAL receiver.  The storage node has none. -/
  flushedUpto : ℕ

/-- What the reader finds: the ring, the segments in the archive and in `pg_wal`, what `pg_pread`
returns for a page, and the check of a page header. -/
structure WalEnv where
  segSize : WalSegSize
  ring : RpcRing
  archived : ℕ → Bool
  inPgWal : ℕ → Bool
  pread : ℕ → ℤ × PageBytes
  headerValid : ℕ → PageBytes → Bool
  inArchiveRecovery : Bool
  /-- Whether `wal_retrieve_retry_interval` has passed since the last failure, by iteration. -/
  retryDue : ℕ → Bool

/-- The segment of a position. -/
def WalEnv.segNo (env : WalEnv) (p : ℕ) : ℕ := env.segSize.segNo p

/-- The offset of a position in its segment. -/
def WalEnv.offset (env : WalEnv) (p : ℕ) : ℕ := env.segSize.offset p

/-- `XLogFileReadAnyTLI`, for the segment `readSegNo` and a single timeline. -/
def xLogFileReadAnyTLI (env : WalEnv) (st : Reader) (source : XLogSource) : Reader :=
  if (source = .any ∨ source = .archive) ∧ env.archived st.readSegNo then
    { st with readFile := true, readSource := .archive }
  else if (source = .any ∨ source = .pgWal ∨ source = .rpc) ∧ env.inPgWal st.readSegNo then
    { st with readFile := true, readSource := .pgWal }
  else { st with readFile := false }

/-! ## Waiting for WAL -/

/-- What came out of looking at the flush position. -/
inductive Poll
  | ready (flushed : ℕ) (arrivals : List ℕ)
  | notYet (flushed : ℕ) (arrivals : List ℕ)
  /-- In `WaitForNewXLog`, and nothing arrives any more. -/
  | sleeping

/-- The test of the flush position before and after one `WaitForNewXLog`. -/
def rpcPoll (recPtr flushed : ℕ) (arrivals : List ℕ) : Poll :=
  if recPtr < flushed then .ready flushed arrivals
  else match arrivals with
    | [] => .sleeping
    | flushed' :: rest =>
        if recPtr < flushed' then .ready flushed' rest else .notYet flushed' rest

/-- How the wait ends.  It never gives up on the storage node. -/
inductive WaitOutcome
  | available (st : Reader) (flushed : ℕ) (arrivals : List ℕ)
  | sleeping
  /-- `elog(ERROR)` for a source that is not expected. -/
  | error

section Wait

variable (env : WalEnv) (recPtr : ℕ)

/-- The second switch of the loop: read from the current source.  `retry` is the next
iteration. -/
def readFromSource (retry : ℕ → List ℕ → Reader → Option WaitOutcome) (flushed : ℕ)
    (arrivals : List ℕ) (st : Reader) : Option WaitOutcome :=
  match st.currentSource with
  | .archive | .pgWal =>
      let source := if st.currentSource = .archive then .any else st.currentSource
      let st := xLogFileReadAnyTLI env st source
      if st.readFile then some (.available st flushed arrivals)
      else retry flushed arrivals { st with lastSourceFailed := true }
  | .rpc =>
      match rpcPoll recPtr flushed arrivals with
      | .ready flushed arrivals =>
          some (.available { st with readSource := .rpc } flushed arrivals)
      | .notYet flushed arrivals => retry flushed arrivals st
      | .sleeping => some .sleeping
  | .stream | .any => some .error

/-- The loop of `WaitForWALToBecomeAvailable`. -/
def waitLoop : ℕ → ℕ → List ℕ → Reader → Option WaitOutcome
  | 0, _, _, _ => none
  | fuel + 1, flushed, arrivals, st =>
      let read := fun flushed arrivals (st : Reader) =>
        readFromSource env recPtr (waitLoop fuel) flushed arrivals
          { st with lastSourceFailed := false }
      if st.lastSourceFailed then
        match st.currentSource with
        | .archive | .pgWal => read flushed arrivals { st with currentSource := .rpc }
        | .rpc =>
            if env.retryDue fuel then read flushed arrivals st
            else
              match rpcPoll recPtr flushed arrivals with
              | .ready flushed arrivals => some (.available
                  { st with readSource := .rpc, lastSourceFailed := false } flushed arrivals)
              | .notYet flushed arrivals => read flushed arrivals st
              | .sleeping => some .sleeping
        | .stream | .any => some .error
      else if st.currentSource = .pgWal ∧ env.inArchiveRecovery then
        read flushed arrivals { st with currentSource := .archive }
      else read flushed arrivals st

/-- `WaitForWALToBecomeAvailable` on the storage node. -/
def waitForWALToBecomeAvailable (fuel flushed : ℕ) (arrivals : List ℕ) (st : Reader) :
    Option WaitOutcome :=
  let st := if st.currentSource = .any ∨ st.currentSource = .stream then
      { st with lastSourceFailed := false, currentSource := .archive }
    else st
  waitLoop env recPtr fuel flushed arrivals st

end Wait

/-! ## Reading a page -/

/-- How `XLogPageRead` ends. -/
inductive PageReadOutcome
  | returned (readLen : ℤ) (page : PageBytes) (st : Reader) (flushed : ℕ) (arrivals : List ℕ)
  | sleeping
  | error

section PageRead

variable (env : WalEnv) (targetPagePtr reqLen : ℕ)

/-- The distance from the page to `flushedUpto` within its segment: an unsigned 32-bit number that
is returned as an `int`. -/
def lenToFlushedUpto (flushedUpto : ℕ) : ℤ :=
  Int.bmod ((env.offset flushedUpto : ℤ) - env.offset targetPagePtr) (2 ^ 32)

/-- The length the page is said to be valid for.  With the RPC source the segment is opened here,
and it is `flushedUpto` that the length of the last page is computed from. -/
def validLength (flushed : ℕ) (st : Reader) : ℤ × Reader :=
  match st.readSource with
  | .stream =>
      (if targetPagePtr / xlogBlcksz ≠ st.flushedUpto / xlogBlcksz then xlogBlcksz
        else lenToFlushedUpto env targetPagePtr st.flushedUpto, st)
  | .rpc =>
      (if targetPagePtr / xlogBlcksz < flushed / xlogBlcksz then xlogBlcksz
        else lenToFlushedUpto env targetPagePtr st.flushedUpto,
        if st.readFile then st else xLogFileReadAnyTLI env st .rpc)
  | _ => (xlogBlcksz, st)

/-- The bytes of the page and how many were read: from the ring, else from the file. -/
def fetchPage (st : Reader) : ℤ × PageBytes :=
  match env.ring.lookup targetPagePtr with
  | some page => (xlogBlcksz, page)
  | none => if st.readFile then env.pread targetPagePtr else (-1, fun _ => 0)

/-- More data has to be retrieved first. -/
def mustWait (flushed : ℕ) (st : Reader) : Bool :=
  !st.readFile ||
    (st.readSource == .stream && decide (st.flushedUpto < targetPagePtr + reqLen)) ||
    ((st.currentSource == .rpc || st.readSource == .rpc) &&
      decide (flushed < targetPagePtr + reqLen))

/-- One attempt to read the page.  `retry` is what follows a failed attempt. -/
def readAttempt (retry : ℕ → List ℕ → Reader → Option PageReadOutcome) (flushed : ℕ)
    (arrivals : List ℕ) (st : Reader) : Option PageReadOutcome :=
  let (readLen, st) := validLength env targetPagePtr flushed st
  let (r, page) := fetchPage env targetPagePtr st
  if r = xlogBlcksz ∧ env.headerValid targetPagePtr page then
    some (.returned readLen page st flushed arrivals)
  else
    retry flushed arrivals { st with
      lastSourceFailed := true, readFile := false, readSource := .any, reachTempEnd := true }

/-- `XLogPageRead` from the label `retry` on. -/
def pageReadLoop : ℕ → ℕ → List ℕ → Reader → Option PageReadOutcome
  | 0, _, _, _ => none
  | fuel + 1, flushed, arrivals, st =>
      let attempt := readAttempt env targetPagePtr (pageReadLoop fuel)
      if mustWait targetPagePtr reqLen flushed st then
        match waitForWALToBecomeAvailable env (targetPagePtr + reqLen) (fuel + 1) flushed arrivals
            st with
        | some (.available st flushed arrivals) => attempt flushed arrivals st
        | some .sleeping => some .sleeping
        | some .error => some .error
        | none => none
      else attempt flushed arrivals st

/-- A file of another segment is closed. -/
def switchSegment (st : Reader) : Reader :=
  let st := if st.readFile ∧ env.segNo targetPagePtr ≠ st.readSegNo then
      { st with readFile := false, readSource := .any }
    else st
  { st with readSegNo := env.segNo targetPagePtr }

/-- `XLogPageRead`. -/
def xLogPageRead (fuel flushed : ℕ) (arrivals : List ℕ) (st : Reader) : Option PageReadOutcome :=
  pageReadLoop env targetPagePtr reqLen fuel flushed arrivals
    (switchSegment env targetPagePtr st)

end PageRead

/-! ## With the RPC source -/

section Rpc

variable {env : WalEnv} {recPtr targetPagePtr reqLen flushed : ℕ} {st : Reader}
  {retry : ℕ → List ℕ → Reader → Option PageReadOutcome} {arrivals : List ℕ}

lemma rpcPoll_ready (hlt : recPtr < flushed) (arrivals : List ℕ) :
    rpcPoll recPtr flushed arrivals = .ready flushed arrivals := by
  simp [rpcPoll, hlt]

lemma rpcPoll_sleeping (hge : flushed ≤ recPtr) : rpcPoll recPtr flushed [] = .sleeping := by
  simp [rpcPoll, not_lt.mpr hge]

/-- **The wait ends at once** when the flush position is beyond the position asked for. -/
lemma wait_available (hcur : st.currentSource = .rpc) (hlt : recPtr < flushed) (fuel : ℕ)
    (arrivals : List ℕ) :
    waitForWALToBecomeAvailable env recPtr (fuel + 1) flushed arrivals
      st = some (.available { st with readSource := .rpc, lastSourceFailed := false } flushed
        arrivals) := by
  rw [waitForWALToBecomeAvailable, if_neg (by simp [hcur]), waitLoop]
  cases hfailed : st.lastSourceFailed <;> cases env.retryDue fuel <;>
    simp [hcur, readFromSource, rpcPoll_ready hlt]

/-- **The wait sleeps** when the flush position is only just the position asked for. -/
lemma wait_sleeping (hcur : st.currentSource = .rpc) (hge : flushed ≤ recPtr) (fuel : ℕ) :
    waitForWALToBecomeAvailable env recPtr (fuel + 1) flushed [] st =
      some .sleeping := by
  rw [waitForWALToBecomeAvailable, if_neg (by simp [hcur]), waitLoop]
  cases hfailed : st.lastSourceFailed <;> cases env.retryDue fuel <;>
    simp [hcur, readFromSource, rpcPoll_sleeping hge]

/-- The page can be read: the ring has it, or it is in a segment file of `pg_wal`; and its header
is valid. -/
def PageReadable (env : WalEnv) (targetPagePtr : ℕ) : Prop :=
  ∃ page, env.headerValid targetPagePtr page = true ∧
    (env.ring.lookup targetPagePtr = some page ∨
      env.ring.lookup targetPagePtr = none ∧ env.inPgWal (env.segNo targetPagePtr) = true ∧
        env.pread targetPagePtr = ((xlogBlcksz : ℤ), page))

/-- A reader that uses the RPC source, as the storage node's does once the archive and `pg_wal` are
exhausted. -/
structure RpcReader (st : Reader) : Prop where
  current : st.currentSource = .rpc
  no_stream : st.readSource ≠ .stream

lemma RpcReader.openSegment (h : RpcReader st) (source : XLogSource) :
    RpcReader (xLogFileReadAnyTLI env st source) := by
  unfold xLogFileReadAnyTLI
  split_ifs
  · exact ⟨h.current, by simp⟩
  · exact ⟨h.current, by simp⟩
  · exact ⟨h.current, h.no_stream⟩

/-- The length a page read reports when it does not have to wait. -/
def reportedLen (env : WalEnv) (targetPagePtr flushed : ℕ) (st : Reader) : ℤ :=
  if st.readSource = .rpc ∧ ¬ targetPagePtr / xlogBlcksz < flushed / xlogBlcksz then
    lenToFlushedUpto env targetPagePtr st.flushedUpto
  else xlogBlcksz

lemma validLength_spec (hst : RpcReader st) :
    validLength env targetPagePtr flushed st = (reportedLen env targetPagePtr flushed st,
      if st.readSource = .rpc ∧ ¬ st.readFile then xLogFileReadAnyTLI env st .rpc else st) := by
  have hno := hst.no_stream
  cases hsrc : st.readSource with
  | stream => exact absurd hsrc hno
  | rpc =>
      by_cases hpage : targetPagePtr / xlogBlcksz < flushed / xlogBlcksz <;>
        cases hfile : st.readFile <;> simp [validLength, reportedLen, hsrc, hpage, hfile]
  | _ => simp [validLength, reportedLen, hsrc]

/-- **An attempt** to read a readable page succeeds, with its segment open or with the RPC
source. -/
lemma attempt_spec (hst : RpcReader st) (hseg : st.readSegNo = env.segNo targetPagePtr)
    (hopen : st.readFile = true ∨ st.readSource = .rpc)
    (hpage : PageReadable env targetPagePtr) (flushed : ℕ) :
    ∃ page, readAttempt env targetPagePtr retry flushed arrivals st =
      some (.returned (reportedLen env targetPagePtr flushed st) page
        (if st.readSource = .rpc ∧ ¬ st.readFile then xLogFileReadAnyTLI env st .rpc else st)
        flushed arrivals) := by
  obtain ⟨page, hvalid, hsrc⟩ := hpage
  refine ⟨page, ?_⟩
  have hfetch : fetchPage env targetPagePtr (if st.readSource = .rpc ∧ ¬ st.readFile then
      xLogFileReadAnyTLI env st .rpc else st) = ((xlogBlcksz : ℤ), page) := by
    rcases hsrc with hring | ⟨hring, hin, hread⟩
    · simp [fetchPage, hring]
    · have hfile : (if st.readSource = .rpc ∧ ¬ st.readFile then
          xLogFileReadAnyTLI env st .rpc else st).readFile = true := by
        split_ifs with hclosed
        · simp [xLogFileReadAnyTLI, hseg, hin]
        · rcases hopen with hfile | hrpc
          · exact hfile
          · by_contra hfile
            exact hclosed ⟨hrpc, hfile⟩
      simp only [fetchPage, hring, hfile, if_true, hread]
  simp only [readAttempt, validLength_spec hst, hfetch, hvalid, and_self, if_true]

/-- The segment of the page is open. -/
def SegmentOpen (env : WalEnv) (targetPagePtr : ℕ) (st : Reader) : Prop :=
  st.readFile = true ∧ st.readSegNo = env.segNo targetPagePtr

instance (env : WalEnv) (targetPagePtr : ℕ) (st : Reader) :
    Decidable (SegmentOpen env targetPagePtr st) := inferInstanceAs (Decidable (_ ∧ _))

lemma switchSegment_of_open (h : SegmentOpen env targetPagePtr st) :
    switchSegment env targetPagePtr st = st := by
  obtain ⟨_, hseg⟩ := h
  rw [switchSegment, if_neg (fun hother => hother.2 hseg.symm), ← hseg]

lemma switchSegment_of_not_open (h : ¬ SegmentOpen env targetPagePtr st) (hst : RpcReader st) :
    (switchSegment env targetPagePtr st).readFile = false ∧
      (switchSegment env targetPagePtr st).readSegNo = env.segNo targetPagePtr ∧
      (switchSegment env targetPagePtr st).flushedUpto = st.flushedUpto ∧
      RpcReader (switchSegment env targetPagePtr st) := by
  unfold switchSegment
  split_ifs with hother
  · exact ⟨rfl, rfl, rfl, hst.current, by simp⟩
  · refine ⟨?_, rfl, rfl, hst.current, hst.no_stream⟩
    by_contra hfile
    rw [Bool.not_eq_false] at hfile
    exact h ⟨hfile, by by_contra hne; exact hother ⟨hfile, Ne.symm hne⟩⟩

/-- The reader after it got a page of a segment that was not open: the wait function has set the
source, and the segment is open if `pg_wal` has it. -/
def openForRead (env : WalEnv) (targetPagePtr : ℕ) (st : Reader) : Reader :=
  xLogFileReadAnyTLI env { switchSegment env targetPagePtr st with
    readSource := .rpc, lastSourceFailed := false } .rpc

lemma openForRead_rpc (hst : RpcReader st) : RpcReader (openForRead env targetPagePtr st) ∧
    (openForRead env targetPagePtr st).flushedUpto = st.flushedUpto := by
  have hcur : (switchSegment env targetPagePtr st).currentSource = .rpc ∧
      (switchSegment env targetPagePtr st).flushedUpto = st.flushedUpto := by
    unfold switchSegment
    split_ifs <;> exact ⟨hst.current, rfl⟩
  have hset : RpcReader { switchSegment env targetPagePtr st with
      readSource := .rpc, lastSourceFailed := false } := ⟨hcur.1, by simp⟩
  refine ⟨hset.openSegment .rpc, ?_⟩
  rw [← hcur.2, openForRead, xLogFileReadAnyTLI]
  split_ifs <;> rfl

/-- **A page of the open segment** is returned without asking for more WAL. -/
lemma pageRead_open (hst : RpcReader st) (hopen : SegmentOpen env targetPagePtr st)
    (hpage : PageReadable env targetPagePtr) (hle : targetPagePtr + reqLen ≤ flushed)
    (fuel : ℕ) (arrivals : List ℕ) :
    ∃ page, xLogPageRead env targetPagePtr reqLen (fuel + 1) flushed arrivals st =
      some (.returned (reportedLen env targetPagePtr flushed st) page st flushed arrivals) := by
  have hwait : mustWait targetPagePtr reqLen flushed st = false := by
    simp [mustWait, hopen.1, hst.no_stream, hle]
  obtain ⟨page, hread⟩ := attempt_spec hst hopen.2 (Or.inl hopen.1) hpage flushed
  refine ⟨page, ?_⟩
  rw [xLogPageRead, switchSegment_of_open hopen, pageReadLoop, hwait]
  simpa [hopen.1] using hread

/-- **A page of a closed segment** is returned when the flush position is beyond what is asked
for. -/
lemma pageRead_closed (hst : RpcReader st) (hclosed : ¬ SegmentOpen env targetPagePtr st)
    (hpage : PageReadable env targetPagePtr) (hlt : targetPagePtr + reqLen < flushed)
    (fuel : ℕ) (arrivals : List ℕ) :
    ∃ page, xLogPageRead env targetPagePtr reqLen (fuel + 1) flushed arrivals st =
      some (.returned (reportedLen env targetPagePtr flushed { st with readSource := .rpc }) page
        (openForRead env targetPagePtr st) flushed arrivals) := by
  obtain ⟨hfile, hseg, hupto, hst1⟩ := switchSegment_of_not_open hclosed hst
  set st1 := switchSegment env targetPagePtr st with hst1_eq
  have hst2 : RpcReader { st1 with readSource := .rpc, lastSourceFailed := false } :=
    ⟨hst1.current, by simp⟩
  obtain ⟨page, hread⟩ := attempt_spec hst2 hseg (Or.inr rfl) hpage flushed
  have hsame : reportedLen env targetPagePtr flushed
      { st1 with readSource := .rpc, lastSourceFailed := false } =
      reportedLen env targetPagePtr flushed { st with readSource := .rpc } := by
    simp [reportedLen, hupto]
  have hwait : mustWait targetPagePtr reqLen flushed st1 = true := by simp [mustWait, hfile]
  rw [hsame, if_pos ⟨rfl, by simp [hfile]⟩] at hread
  refine ⟨page, ?_⟩
  rw [xLogPageRead, ← hst1_eq, pageReadLoop, hwait, wait_available hst1.current hlt]
  exact hread

/-- **More WAL is needed**: a request that ends behind the flush position, or at it when its segment
is not open, sleeps. -/
lemma pageRead_sleeping (hst : RpcReader st) (hge : flushed < targetPagePtr + reqLen ∨
      ¬ SegmentOpen env targetPagePtr st ∧ flushed ≤ targetPagePtr + reqLen) (fuel : ℕ) :
    xLogPageRead env targetPagePtr reqLen (fuel + 1) flushed [] st = some .sleeping := by
  have hle : flushed ≤ targetPagePtr + reqLen := by
    rcases hge with h | h
    · exact Nat.le_of_lt h
    · exact h.2
  by_cases hopen : SegmentOpen env targetPagePtr st
  · have hlt := hge.resolve_right fun h => h.1 hopen
    have hwait : mustWait targetPagePtr reqLen flushed st = true := by
      simp [mustWait, hst.current, hlt]
    rw [xLogPageRead, switchSegment_of_open hopen, pageReadLoop, hwait]
    simp [wait_sleeping hst.current hle]
  · obtain ⟨hfile, -, -, hst1⟩ := switchSegment_of_not_open hopen hst
    have hwait : mustWait targetPagePtr reqLen flushed (switchSegment env targetPagePtr st) := by
      simp [mustWait, hfile]
    rw [xLogPageRead, pageReadLoop, hwait]
    simp [wait_sleeping hst1.current hle]

/-- **A page the ring has** is returned as it is in the ring, whatever the source. -/
lemma returned_of_ring {page page' : PageBytes} {len : ℤ} {st' : Reader} {flushed' : ℕ}
    {arrivals' : List ℕ} (hring : env.ring.lookup targetPagePtr = some page) {fuel : ℕ} :
    ∀ {flushed : ℕ} {arrivals : List ℕ} {st : Reader},
      pageReadLoop env targetPagePtr reqLen fuel flushed arrivals st =
        some (.returned len page' st' flushed' arrivals') → page' = page := by
  induction fuel with
  | zero =>
      intro flushed arrivals st h
      cases h
  | succ fuel ih =>
      have hattempt : ∀ {flushed arrivals st},
          readAttempt env targetPagePtr (pageReadLoop env targetPagePtr reqLen fuel) flushed
            arrivals st = some (.returned len page' st' flushed' arrivals') → page' = page := by
        intro flushed arrivals st h
        simp only [readAttempt, fetchPage, hring] at h
        split_ifs at h with hvalid
        · cases h
          rfl
        · exact ih h
      intro flushed arrivals st h
      simp only [pageReadLoop] at h
      split_ifs at h
      · cases hwait : waitForWALToBecomeAvailable env (targetPagePtr + reqLen) (fuel + 1) flushed
          arrivals st with
        | none =>
            rw [hwait] at h
            cases h
        | some outcome =>
            rw [hwait] at h
            cases outcome with
            | available st flushed arrivals => exact hattempt h
            | sleeping => cases h
            | error => cases h
      · exact hattempt h

end Rpc

end GroundDB
