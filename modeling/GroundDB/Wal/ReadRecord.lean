import GroundDB.Wal.PageRead

/-!
# Reading records below the flush position

`XLogReadRecord` asks for the pages a record lies on, one after the other, through
`ReadPageInternal`.  Here no WAL arrives while it reads: the flush position stays.

`page_reads_below_flush` says which page requests below the flush position are served, and which
records are read.  A request that ends exactly at the flush position makes the wait function sleep,
and on the page of the flush position the length that is reported is not that of the WAL there,
unless the segment is already open as a file.  A record is read exactly if its page requests are all
served, one after the other (`AllServed`); a request that is served leaves the segment open for
those behind it.
-/

namespace GroundDB

/-- `SizeOfXLogShortPHD`. -/
def sizeOfXLogShortPHD : ℕ := 24

/-- `SizeOfXLogLongPHD`. -/
def sizeOfXLogLongPHD : ℕ := 40

/-- `SizeOfXLogRecord`. -/
def sizeOfXLogRecord : ℕ := 24

/-- `XLogPageHeaderSize`: the first page of a segment has a long header. -/
def pageHeaderSize (env : WalEnv) (pageptr : ℕ) : ℕ :=
  if env.offset pageptr = 0 then sizeOfXLogLongPHD else sizeOfXLogShortPHD

/-- `MAXALIGN`. -/
def maxAlign (len : ℕ) : ℕ := (len + 7) / 8 * 8

/-- The offset of a record in its page: at the start of a page the record follows the page
header. -/
def recordOffset (env : WalEnv) (recPtr : ℕ) : ℕ :=
  if recPtr % xlogBlcksz = 0 then pageHeaderSize env (recPtr - recPtr % xlogBlcksz)
  else recPtr % xlogBlcksz

/-! ## The functions -/

/-- The reader, and the segment `ReadPageInternal` last read from (`seg.ws_segno`). -/
structure RecordReader where
  reader : Reader
  segNo : ℕ

section ReadRecord

variable (env : WalEnv) (fuel flushed : ℕ)

/-- The `page_read` callback while no WAL arrives; `none` when it does not come back. -/
def pageReadNow (pageptr reqLen : ℕ) (st : Reader) : Option (ℤ × Reader) :=
  match xLogPageRead env pageptr reqLen fuel flushed [] st with
  | some (.returned readLen _ st' _ _) => some (readLen, st')
  | _ => none

/-- `ReadPageInternal`, first part: on a change of segment its first page is read. -/
def readSegmentStart (pageptr : ℕ) (st : RecordReader) : Option (Bool × RecordReader) :=
  if env.segNo pageptr ≠ st.segNo ∧ env.offset pageptr ≠ 0 then do
    let (readLen, reader) ← pageReadNow env fuel flushed (pageptr - env.offset pageptr) xlogBlcksz
      st.reader
    some (decide (0 ≤ readLen), { st with reader := reader })
  else some (true, st)

/-- `ReadPageInternal`, second part: the page itself, and once more if its header is not complete.
On an error the reader forgets its segment. -/
def readTargetPage (pageptr reqLen : ℕ) (st : RecordReader) : Option (ℤ × RecordReader) := do
  let (readLen, reader) ← pageReadNow env fuel flushed pageptr (max reqLen sizeOfXLogShortPHD)
    st.reader
  if readLen ≤ sizeOfXLogShortPHD then some (-1, ⟨reader, 0⟩)
  else if readLen < pageHeaderSize env pageptr then do
    let (readLen, reader) ← pageReadNow env fuel flushed pageptr (pageHeaderSize env pageptr) reader
    if readLen < 0 then some (-1, ⟨reader, 0⟩) else some (readLen, ⟨reader, env.segNo pageptr⟩)
  else some (readLen, ⟨reader, env.segNo pageptr⟩)

/-- `ReadPageInternal`. -/
def readPageInternal (pageptr reqLen : ℕ) (st : RecordReader) : Option (ℤ × RecordReader) := do
  let (ok, st) ← readSegmentStart env fuel flushed pageptr st
  if ok then readTargetPage env fuel flushed pageptr reqLen st
  else some (-1, { st with segNo := 0 })

/-- Read the page again when less of it is there than is needed. -/
def readMore (pageptr needed : ℕ) (readOff : ℤ) (st : RecordReader) : Option (ℤ × RecordReader) :=
  if readOff < needed then readPageInternal env fuel flushed pageptr needed st
  else some (readOff, st)

/-- The loop of `XLogReadRecord` over the pages a record continues on; `remaining` is
`total_len - gotlen`.  The result is the record's `EndRecPtr`, or `none` for an error. -/
def readContinuation : ℕ → ℕ → ℕ → RecordReader → Option (Option ℕ × RecordReader)
  | 0, _, _, _ => none
  | pages + 1, targetPagePtr, remaining, st => do
      let page := targetPagePtr + xlogBlcksz
      let header := pageHeaderSize env page
      let (readOff, st) ← readPageInternal env fuel flushed page
        (min (remaining + sizeOfXLogShortPHD) xlogBlcksz) st
      if readOff < 0 then some (none, st)
      else do
        let len := min (xlogBlcksz - header) remaining
        let (readOff, st) ← readMore env fuel flushed page header readOff st
        let (_, st) ← readMore env fuel flushed page (header + len) readOff st
        if len < remaining then readContinuation pages page (remaining - len) st
        else some (some (page + header + maxAlign remaining), st)

/-- `XLogReadRecord`, for a well-formed record of `totalLen` bytes at `recPtr`. -/
def xLogReadRecord (recPtr totalLen : ℕ) (st : RecordReader) :
    Option (Option ℕ × RecordReader) := do
  let targetPagePtr := recPtr - recPtr % xlogBlcksz
  let (readOff, st) ← readPageInternal env fuel flushed targetPagePtr
    (min (recPtr % xlogBlcksz + sizeOfXLogRecord) xlogBlcksz) st
  if readOff < 0 then some (none, st)
  else do
    let recOff := recordOffset env recPtr
    if totalLen > xlogBlcksz - recOff then
      readContinuation env fuel flushed totalLen targetPagePtr
        (totalLen - (xlogBlcksz - recOff)) st
    else do
      let (readOff, st) ← readPageInternal env fuel flushed targetPagePtr
        (min (recOff + totalLen) xlogBlcksz) st
      if readOff < 0 then some (none, st)
      else some (some (targetPagePtr + recOff + maxAlign totalLen), st)

end ReadRecord

/-! ## The page requests of a record -/

/-- Where a record ends that has `remaining` bytes left after the page `targetPagePtr`. -/
def continuationEnd (env : WalEnv) : ℕ → ℕ → ℕ → ℕ
  | 0, targetPagePtr, _ => targetPagePtr + xlogBlcksz
  | pages + 1, targetPagePtr, remaining =>
      let page := targetPagePtr + xlogBlcksz
      let header := pageHeaderSize env page
      let len := min (xlogBlcksz - header) remaining
      if len < remaining then continuationEnd env pages page (remaining - len)
      else page + header + maxAlign remaining

/-- Where a record of `totalLen` bytes at `recPtr` ends. -/
def recordEnd (env : WalEnv) (recPtr totalLen : ℕ) : ℕ :=
  let targetPagePtr := recPtr - recPtr % xlogBlcksz
  let recOff := recordOffset env recPtr
  if totalLen > xlogBlcksz - recOff then
    continuationEnd env totalLen targetPagePtr (totalLen - (xlogBlcksz - recOff))
  else targetPagePtr + recOff + maxAlign totalLen

/-- A request of the `page_read` callback: a page, and the length that is needed of it. -/
abbrev PageRequest := ℕ × ℕ

/-- The requests of `ReadPageInternal`: for the first page of the segment, when it changes to the
middle of another one, and for the page. -/
def pageRequests (env : WalEnv) (segNo pageptr reqLen : ℕ) : List PageRequest :=
  (if env.segNo pageptr ≠ segNo ∧ env.offset pageptr ≠ 0 then
    [(pageptr - env.offset pageptr, xlogBlcksz)] else []) ++
    [(pageptr, max reqLen sizeOfXLogShortPHD)]

/-- The requests for the pages on which a record goes on that has `remaining` bytes left after the
page `targetPagePtr`. -/
def continuationRequests (env : WalEnv) : ℕ → ℕ → ℕ → List PageRequest
  | 0, _, _ => []
  | pages + 1, targetPagePtr, remaining =>
      let page := targetPagePtr + xlogBlcksz
      let len := min (xlogBlcksz - pageHeaderSize env page) remaining
      (page, max (min (remaining + sizeOfXLogShortPHD) xlogBlcksz) sizeOfXLogShortPHD) ::
        if len < remaining then continuationRequests env pages page (remaining - len) else []

/-- The requests for a record of `totalLen` bytes at `recPtr`, when `segNo` was read last: its
header, and then the rest of it. -/
def recordRequests (env : WalEnv) (segNo recPtr totalLen : ℕ) : List PageRequest :=
  let targetPagePtr := recPtr - recPtr % xlogBlcksz
  let recOff := recordOffset env recPtr
  pageRequests env segNo targetPagePtr (min (recPtr % xlogBlcksz + sizeOfXLogRecord) xlogBlcksz) ++
    if totalLen > xlogBlcksz - recOff then
      continuationRequests env totalLen targetPagePtr (totalLen - (xlogBlcksz - recOff))
    else [(targetPagePtr, max (min (recOff + totalLen) xlogBlcksz) sizeOfXLogShortPHD)]

/-- **A request is served** while no WAL arrives: with its segment open, it ends at or before the
flush position, and its page is before that of the flush position if the segment is read as coming
from the RPC source; otherwise it ends before the flush position and so does its page. -/
def Served (env : WalEnv) (flushed : ℕ) (r : PageRequest) (st : Reader) : Prop :=
  if SegmentOpen env r.1 st then r.1 + r.2 ≤ flushed ∧
    (st.readSource = .rpc → r.1 / xlogBlcksz < flushed / xlogBlcksz)
  else r.1 + r.2 < flushed ∧ r.1 / xlogBlcksz < flushed / xlogBlcksz

/-- The reader after a request that was served. -/
def afterRead (env : WalEnv) (r : PageRequest) (st : Reader) : Reader :=
  if SegmentOpen env r.1 st then st else openForRead env r.1 st

/-- **All requests are served**, one after the other. -/
def AllServed (env : WalEnv) (flushed : ℕ) : List PageRequest → Reader → Prop
  | [], _ => True
  | r :: rs, st => Served env flushed r st ∧ AllServed env flushed rs (afterRead env r st)

/-- The reader after requests that were served. -/
def afterReads (env : WalEnv) (rs : List PageRequest) (st : Reader) : Reader :=
  rs.foldl (fun st r => afterRead env r st) st

section Spec

variable {env : WalEnv} {flushed pageptr reqLen : ℕ} {st : Reader} {rst : RecordReader}

lemma pageHeaderSize_le (env : WalEnv) (pageptr : ℕ) : pageHeaderSize env pageptr ≤ 40 := by
  unfold pageHeaderSize
  split_ifs <;> decide

lemma lenToFlushedUpto_eq (env : WalEnv) (targetPagePtr flushedUpto : ℕ) :
    lenToFlushedUpto env targetPagePtr flushedUpto =
      (env.offset flushedUpto : ℤ) - env.offset targetPagePtr := by
  have h1 := env.segSize.offset_lt flushedUpto
  have h2 := env.segSize.offset_lt targetPagePtr
  have hsize := env.segSize.size_le
  unfold lenToFlushedUpto WalEnv.offset
  refine Int.bmod_eq_of_le ?_ ?_ <;> omega

/-- A reader on the storage node: it uses the RPC source, and there is no WAL receiver. -/
structure StorageReader (st : Reader) : Prop extends RpcReader st where
  no_receiver : st.flushedUpto = 0

lemma StorageReader.afterRead (h : StorageReader st) (r : PageRequest) :
    StorageReader (afterRead env r st) := by
  unfold GroundDB.afterRead
  split_ifs
  · exact h
  · obtain ⟨hrpc, hupto⟩ := openForRead_rpc h.toRpcReader
    exact ⟨hrpc, hupto.trans h.no_receiver⟩

lemma StorageReader.afterReads (h : StorageReader st) (rs : List PageRequest) :
    StorageReader (afterReads env rs st) := by
  induction rs generalizing st with
  | nil => exact h
  | cons r rs ih => exact ih (h.afterRead r)

lemma allServed_append {rs rs' : List PageRequest} : AllServed env flushed (rs ++ rs') st ↔
    AllServed env flushed rs st ∧ AllServed env flushed rs' (afterReads env rs st) := by
  induction rs generalizing st with
  | nil => simp [AllServed, afterReads]
  | cons r rs ih =>
      simp only [List.cons_append, AllServed, ih, and_assoc]
      rfl

/-- **A request that is served** gives the whole page. -/
lemma pageReadNow_served (hst : StorageReader st) (hpage : PageReadable env pageptr)
    (hs : Served env flushed (pageptr, reqLen) st) (fuel : ℕ) :
    pageReadNow env (fuel + 1) flushed pageptr reqLen st =
      some ((xlogBlcksz : ℤ), afterRead env (pageptr, reqLen) st) := by
  by_cases hopen : SegmentOpen env pageptr st
  · rw [Served, if_pos hopen] at hs
    obtain ⟨page, hread⟩ := pageRead_open hst.toRpcReader hopen hpage hs.1 fuel []
    have hlen : reportedLen env pageptr flushed st = xlogBlcksz :=
      if_neg fun h => h.2 (hs.2 h.1)
    simp [pageReadNow, hread, hlen, afterRead, hopen]
  · rw [Served, if_neg hopen] at hs
    obtain ⟨page, hread⟩ := pageRead_closed hst.toRpcReader hopen hpage hs.1 fuel []
    have hlen : reportedLen env pageptr flushed { st with readSource := .rpc } = xlogBlcksz :=
      if_neg fun h => h.2 hs.2
    simp [pageReadNow, hread, hlen, afterRead, hopen]

/-- On the flush position's page no positive length is reported. -/
lemma reportedLen_nonpos (hupto : st.flushedUpto = 0) (hsrc : st.readSource = .rpc)
    (hpage : ¬ pageptr / xlogBlcksz < flushed / xlogBlcksz) :
    reportedLen env pageptr flushed st ≤ 0 := by
  have hzero : env.offset 0 = 0 := Nat.zero_mod _
  rw [reportedLen, if_pos ⟨hsrc, hpage⟩, lenToFlushedUpto_eq, hupto, hzero]
  omega

/-- **A request that is not served** does not come back, or it is on the flush position's page and
no positive length is reported. -/
lemma pageReadNow_not_served (hst : StorageReader st) (hpage : PageReadable env pageptr)
    (hs : ¬ Served env flushed (pageptr, reqLen) st) (fuel : ℕ) :
    pageReadNow env (fuel + 1) flushed pageptr reqLen st = none ∨
      pageptr + reqLen ≤ flushed ∧ ¬ pageptr / xlogBlcksz < flushed / xlogBlcksz ∧
        ∃ readLen st', readLen ≤ 0 ∧
          pageReadNow env (fuel + 1) flushed pageptr reqLen st = some (readLen, st') := by
  by_cases hopen : SegmentOpen env pageptr st
  · rw [Served, if_pos hopen, not_and_or] at hs
    by_cases hle : pageptr + reqLen ≤ flushed
    · obtain ⟨hsrc, hflush⟩ := Classical.not_imp.mp (hs.resolve_left (not_not.mpr hle))
      obtain ⟨page, hread⟩ := pageRead_open hst.toRpcReader hopen hpage hle fuel []
      refine .inr ⟨hle, hflush, reportedLen env pageptr flushed st, st,
        reportedLen_nonpos hst.no_receiver hsrc hflush, ?_⟩
      simp only [pageReadNow, hread]
    · left
      rw [pageReadNow, pageRead_sleeping hst.toRpcReader (.inl (Nat.not_le.mp hle))]
  · rw [Served, if_neg hopen, not_and_or] at hs
    by_cases hlt : pageptr + reqLen < flushed
    · have hflush := hs.resolve_left (not_not.mpr hlt)
      obtain ⟨page, hread⟩ := pageRead_closed hst.toRpcReader hopen hpage hlt fuel []
      refine .inr ⟨Nat.le_of_lt hlt, hflush,
        reportedLen env pageptr flushed { st with readSource := .rpc }, openForRead env pageptr st,
        reportedLen_nonpos hst.no_receiver rfl hflush, ?_⟩
      simp only [pageReadNow, hread]
    · left
      rw [pageReadNow, pageRead_sleeping hst.toRpcReader (.inr ⟨hopen, Nat.not_lt.mp hlt⟩)]

lemma segmentStart_dvd (env : WalEnv) (hal : xlogBlcksz ∣ pageptr) :
    xlogBlcksz ∣ pageptr - env.offset pageptr :=
  Nat.dvd_sub hal ((Nat.dvd_mod_iff env.segSize.blcksz_dvd).mpr hal)

lemma page_lt_of_whole (hle : pageptr + xlogBlcksz ≤ flushed) :
    pageptr / xlogBlcksz < flushed / xlogBlcksz := by
  unfold xlogBlcksz at hle ⊢
  omega

/-- **The page itself**, served. -/
lemma readTargetPage_served (hst : StorageReader rst.reader) (hpage : PageReadable env pageptr)
    (hs : Served env flushed (pageptr, max reqLen sizeOfXLogShortPHD) rst.reader) (fuel : ℕ) :
    readTargetPage env (fuel + 1) flushed pageptr reqLen rst = some ((xlogBlcksz : ℤ),
      ⟨afterRead env (pageptr, max reqLen sizeOfXLogShortPHD) rst.reader, env.segNo pageptr⟩) := by
  have h1 : ¬ ((xlogBlcksz : ℤ) ≤ sizeOfXLogShortPHD) := by decide
  have h2 : ¬ ((xlogBlcksz : ℤ) < pageHeaderSize env pageptr) := by
    have := pageHeaderSize_le env pageptr
    unfold xlogBlcksz
    omega
  simp only [readTargetPage, pageReadNow_served hst hpage hs fuel, Option.bind_eq_bind,
    Option.bind_some, if_neg h1, if_neg h2]

lemma readTargetPage_not_served (hst : StorageReader rst.reader) (hpage : PageReadable env pageptr)
    (hs : ¬ Served env flushed (pageptr, max reqLen sizeOfXLogShortPHD) rst.reader) (fuel : ℕ) :
    readTargetPage env (fuel + 1) flushed pageptr reqLen rst = none ∨
      ∃ rst', readTargetPage env (fuel + 1) flushed pageptr reqLen rst = some (-1, rst') := by
  rcases pageReadNow_not_served hst hpage hs fuel with hnone | ⟨-, -, readLen, st', hle, hread⟩
  · simp [readTargetPage, hnone]
  · right
    have hshort : readLen ≤ (sizeOfXLogShortPHD : ℤ) := by
      unfold sizeOfXLogShortPHD
      omega
    exact ⟨⟨st', 0⟩, by simp [readTargetPage, hread, hshort]⟩

/-- **`ReadPageInternal`**, its requests served. -/
lemma readPageInternal_served (hst : StorageReader rst.reader) (hal : xlogBlcksz ∣ pageptr)
    (hread : ∀ p, xlogBlcksz ∣ p → p ≤ pageptr → PageReadable env p)
    (hs : AllServed env flushed (pageRequests env rst.segNo pageptr reqLen) rst.reader) (fuel : ℕ) :
    readPageInternal env (fuel + 1) flushed pageptr reqLen rst = some ((xlogBlcksz : ℤ),
      ⟨afterReads env (pageRequests env rst.segNo pageptr reqLen) rst.reader,
        env.segNo pageptr⟩) := by
  have hpage := hread pageptr hal le_rfl
  by_cases hchange : env.segNo pageptr ≠ rst.segNo ∧ env.offset pageptr ≠ 0
  · rw [pageRequests, if_pos hchange] at hs ⊢
    obtain ⟨hfirst, htarget, -⟩ := hs
    have hstart := pageReadNow_served hst
      (hread _ (segmentStart_dvd env hal) (Nat.sub_le _ _)) hfirst fuel
    set rst1 : RecordReader :=
      ⟨afterRead env (pageptr - env.offset pageptr, xlogBlcksz) rst.reader, rst.segNo⟩
    have hst1 : StorageReader rst1.reader := hst.afterRead _
    have hrest := readTargetPage_served hst1 hpage htarget fuel
    have hnonneg : (0 : ℤ) ≤ xlogBlcksz := by decide
    simp only [readPageInternal, readSegmentStart, if_pos hchange, hstart, Option.bind_eq_bind,
      Option.bind_some, hnonneg, decide_true, if_true]
    exact hrest
  · rw [pageRequests, if_neg hchange] at hs ⊢
    have hrest := readTargetPage_served hst hpage hs.1 fuel
    simp only [readPageInternal, readSegmentStart, if_neg hchange, Option.bind_eq_bind,
      Option.bind_some, if_true, hrest]
    rfl

/-- **`ReadPageInternal`**, a request of it not served: an error, or no answer. -/
lemma readPageInternal_not_served (hst : StorageReader rst.reader) (hal : xlogBlcksz ∣ pageptr)
    (hread : ∀ p, xlogBlcksz ∣ p → p ≤ pageptr → PageReadable env p)
    (hs : ¬ AllServed env flushed (pageRequests env rst.segNo pageptr reqLen) rst.reader)
    (fuel : ℕ) :
    readPageInternal env (fuel + 1) flushed pageptr reqLen rst = none ∨
      ∃ rst', readPageInternal env (fuel + 1) flushed pageptr reqLen rst = some (-1, rst') := by
  have hpage := hread pageptr hal le_rfl
  by_cases hchange : env.segNo pageptr ≠ rst.segNo ∧ env.offset pageptr ≠ 0
  · rw [pageRequests, if_pos hchange] at hs
    have hfirstpage := hread _ (segmentStart_dvd env hal) (Nat.sub_le _ _)
    by_cases hfirst : Served env flushed (pageptr - env.offset pageptr, xlogBlcksz) rst.reader
    · have hstart := pageReadNow_served hst hfirstpage hfirst fuel
      set rst1 : RecordReader :=
        ⟨afterRead env (pageptr - env.offset pageptr, xlogBlcksz) rst.reader, rst.segNo⟩
      have hst1 : StorageReader rst1.reader := hst.afterRead _
      have htarget : ¬ Served env flushed (pageptr, max reqLen sizeOfXLogShortPHD) rst1.reader :=
        fun h => hs ⟨hfirst, h, trivial⟩
      have hrest := readTargetPage_not_served hst1 hpage htarget fuel
      have hnonneg : (0 : ℤ) ≤ xlogBlcksz := by decide
      simpa only [readPageInternal, readSegmentStart, if_pos hchange, hstart, Option.bind_eq_bind,
        Option.bind_some, hnonneg, decide_true, if_true] using hrest
    · left
      rcases pageReadNow_not_served hst hfirstpage hfirst fuel with hnone | ⟨hle, hflush, -⟩
      · simp [readPageInternal, readSegmentStart, hchange, hnone]
      · exact absurd (page_lt_of_whole hle) hflush
  · rw [pageRequests, if_neg hchange] at hs
    have htarget : ¬ Served env flushed (pageptr, max reqLen sizeOfXLogShortPHD) rst.reader :=
      fun h => hs ⟨h, trivial⟩
    simpa only [readPageInternal, readSegmentStart, if_neg hchange, Option.bind_eq_bind,
      Option.bind_some, if_true] using readTargetPage_not_served hst hpage htarget fuel

/-- The page read last, or the one behind it, is asked for alone. -/
lemma pageRequests_same (env : WalEnv) (pageptr reqLen : ℕ) :
    pageRequests env (env.segNo pageptr) pageptr reqLen
      = [(pageptr, max reqLen sizeOfXLogShortPHD)] := by
  simp [pageRequests]

lemma pageRequests_next (env : WalEnv) (hal : xlogBlcksz ∣ pageptr) (reqLen : ℕ) :
    pageRequests env (env.segNo pageptr) (pageptr + xlogBlcksz) reqLen
      = [(pageptr + xlogBlcksz, max reqLen sizeOfXLogShortPHD)] := by
  have hnext : env.segNo (pageptr + xlogBlcksz) = env.segNo pageptr ∨
      env.offset (pageptr + xlogBlcksz) = 0 := by
    have hp := env.segSize.segNo_mul_add_offset pageptr
    rcases Nat.lt_or_eq_of_le (env.segSize.offset_add_blcksz_le hal) with hlt | heq
    · -- the next page is in the same segment
      left
      refine Nat.div_eq_of_lt_le ?_ ?_
      · change env.segSize.segNo pageptr * env.segSize.size ≤ _
        omega
      · rw [Nat.succ_mul]
        change _ < env.segSize.segNo pageptr * env.segSize.size + _
        omega
    · right
      have hsum : pageptr + xlogBlcksz = (env.segSize.segNo pageptr + 1) * env.segSize.size := by
        rw [Nat.succ_mul]
        omega
      rw [WalEnv.offset, WalSegSize.offset, hsum, Nat.mul_mod_left]
  rcases hnext with h | h <;> simp [pageRequests, h]

/-- A continued record goes on past the next page header. -/
lemma lt_continuationEnd (env : WalEnv) {pages : ℕ} : ∀ (targetPagePtr : ℕ) {remaining : ℕ},
    0 < remaining → remaining ≤ pages →
      targetPagePtr + xlogBlcksz < continuationEnd env pages targetPagePtr remaining := by
  induction pages with
  | zero =>
      intro targetPagePtr remaining hpos hle
      omega
  | succ pages ih =>
      intro targetPagePtr remaining hpos hle
      have hheader := pageHeaderSize_le env (targetPagePtr + xlogBlcksz)
      simp only [continuationEnd]
      split_ifs with hmore
      · have hlen : 0 < min (xlogBlcksz - pageHeaderSize env (targetPagePtr + xlogBlcksz))
            remaining := by
          unfold xlogBlcksz at hheader ⊢
          omega
        have := ih (targetPagePtr + xlogBlcksz) (Nat.sub_pos_of_lt hmore) (by omega)
        omega
      · have : 0 < maxAlign remaining := by
          unfold maxAlign
          omega
        omega

/-- A record is read: `XLogReadRecord`, or the part of it that reads the rest, gives its end. -/
def Reads (result : Option (Option ℕ × RecordReader)) (stop : ℕ) : Prop :=
  ∃ rst', result = some (some stop, rst')

/-- **A continued record** is read to its end exactly if its requests are served. -/
lemma readContinuation_iff {pages stop : ℕ} (fuel : ℕ) :
    ∀ {targetPagePtr remaining : ℕ} {rst : RecordReader}, StorageReader rst.reader →
      rst.segNo = env.segNo targetPagePtr → 0 < remaining → remaining ≤ pages →
      xlogBlcksz ∣ targetPagePtr →
      (∀ p, xlogBlcksz ∣ p → p < continuationEnd env pages targetPagePtr remaining →
        PageReadable env p) →
      (Reads (readContinuation env (fuel + 1) flushed pages targetPagePtr remaining rst) stop ↔
        continuationEnd env pages targetPagePtr remaining = stop ∧
        AllServed env flushed (continuationRequests env pages targetPagePtr remaining)
          rst.reader) := by
  induction pages with
  | zero =>
      intro targetPagePtr remaining rst _ _ hpos hle
      omega
  | succ pages ih =>
      intro targetPagePtr remaining rst hst hseg hpos hle hal hread
      have hlt := lt_continuationEnd env targetPagePtr hpos hle
      have hal' : xlogBlcksz ∣ targetPagePtr + xlogBlcksz := Nat.dvd_add hal (Nat.dvd_refl _)
      have hbelow : ∀ p, xlogBlcksz ∣ p → p ≤ targetPagePtr + xlogBlcksz → PageReadable env p :=
        fun p hp hple => hread p hp (lt_of_le_of_lt hple hlt)
      have hheader := pageHeaderSize_le env (targetPagePtr + xlogBlcksz)
      have hreqs := pageRequests_next env hal
        (min (remaining + sizeOfXLogShortPHD) xlogBlcksz)
      rw [← hseg] at hreqs
      set page := targetPagePtr + xlogBlcksz with hpage
      set r : PageRequest :=
        (page, max (min (remaining + sizeOfXLogShortPHD) xlogBlcksz) sizeOfXLogShortPHD) with hr
      by_cases hs : Served env flushed r rst.reader
      · have hall : AllServed env flushed (pageRequests env rst.segNo page
            (min (remaining + sizeOfXLogShortPHD) xlogBlcksz)) rst.reader := by
          rw [hreqs]
          exact ⟨hs, trivial⟩
        have hfirst := readPageInternal_served hst hal' hbelow hall fuel
        rw [hreqs] at hfirst
        -- the whole page is there, so it is read once
        have hmore : ∀ needed rst', needed ≤ xlogBlcksz →
            readMore env (fuel + 1) flushed page needed xlogBlcksz rst'
              = some ((xlogBlcksz : ℤ), rst') := by
          intro needed rst' hneeded
          rw [readMore, if_neg (by omega)]
        have hlen : 0 < min (xlogBlcksz - pageHeaderSize env page) remaining := by
          simp only [xlogBlcksz]
          omega
        have hneeded : pageHeaderSize env page +
            min (xlogBlcksz - pageHeaderSize env page) remaining ≤ xlogBlcksz := by
          simp only [xlogBlcksz]
          omega
        simp only [readContinuation, ← hpage, hfirst, Option.bind_eq_bind, Option.bind_some,
          hmore _ _ (le_trans (Nat.le_add_right _ _) hneeded), hmore _ _ hneeded]
        rw [if_neg (by omega)]
        simp only [continuationEnd, continuationRequests, ← hpage, ← hr, AllServed, hs,
          true_and] at hread ⊢
        split_ifs at hread ⊢ with hrest
        · exact ih (hst.afterRead r) rfl (Nat.sub_pos_of_lt hrest) (by omega) hal' hread
        · simp [Reads, AllServed]
      · have hall : ¬ AllServed env flushed (pageRequests env rst.segNo page
            (min (remaining + sizeOfXLogShortPHD) xlogBlcksz)) rst.reader := by
          rw [hreqs]
          exact fun h => hs h.1
        refine iff_of_false ?_ fun h => hs h.2.1
        rintro ⟨rst', hrst'⟩
        simp only [readContinuation, ← hpage] at hrst'
        rcases readPageInternal_not_served hst hal' hbelow hall fuel with hnone | ⟨rst'', herr⟩
        · rw [hnone] at hrst'
          cases hrst'
        · rw [herr] at hrst'
          simp at hrst'

/-- **`XLogReadRecord`** reads a record exactly if its requests are all served. -/
lemma xLogReadRecord_iff {recPtr totalLen stop : ℕ} (hst : StorageReader rst.reader)
    (hpos : 0 < totalLen)
    (hread : ∀ p, xlogBlcksz ∣ p → p < recordEnd env recPtr totalLen → PageReadable env p)
    (fuel : ℕ) :
    Reads (xLogReadRecord env (fuel + 1) flushed recPtr totalLen rst) stop ↔
      recordEnd env recPtr totalLen = stop ∧
        AllServed env flushed (recordRequests env rst.segNo recPtr totalLen) rst.reader := by
  have hal : xlogBlcksz ∣ recPtr - recPtr % xlogBlcksz := Nat.dvd_sub_mod recPtr
  have halign : 0 < maxAlign totalLen := by
    unfold maxAlign
    omega
  have hlt : recPtr - recPtr % xlogBlcksz < recordEnd env recPtr totalLen := by
    simp only [recordEnd]
    split_ifs with hcross
    · have := lt_continuationEnd env (recPtr - recPtr % xlogBlcksz) (Nat.sub_pos_of_lt hcross)
        (Nat.sub_le _ _)
      omega
    · omega
  have hbelow : ∀ p, xlogBlcksz ∣ p → p ≤ recPtr - recPtr % xlogBlcksz → PageReadable env p :=
    fun p hp hple => hread p hp (lt_of_le_of_lt hple hlt)
  simp only [recordRequests, allServed_append]
  by_cases hs : AllServed env flushed (pageRequests env rst.segNo (recPtr - recPtr % xlogBlcksz)
      (min (recPtr % xlogBlcksz + sizeOfXLogRecord) xlogBlcksz)) rst.reader
  · have hfirst := readPageInternal_served hst hal hbelow hs fuel
    simp only [xLogReadRecord, hfirst, Option.bind_eq_bind, Option.bind_some, hs, true_and]
    rw [if_neg (by omega)]
    set rst1 : RecordReader :=
      ⟨afterReads env (pageRequests env rst.segNo (recPtr - recPtr % xlogBlcksz)
        (min (recPtr % xlogBlcksz + sizeOfXLogRecord) xlogBlcksz)) rst.reader,
        env.segNo (recPtr - recPtr % xlogBlcksz)⟩
    have hstorage : StorageReader rst1.reader := hst.afterReads _
    simp only [recordEnd] at hread ⊢
    split_ifs at hread ⊢ with hcross
    · exact readContinuation_iff fuel hstorage rfl (Nat.sub_pos_of_lt hcross) (Nat.sub_le _ _)
        hal hread
    · have hreqs := pageRequests_same env (recPtr - recPtr % xlogBlcksz)
        (min (recordOffset env recPtr + totalLen) xlogBlcksz)
      rw [← hreqs]
      by_cases hlast : AllServed env flushed (pageRequests env
          (env.segNo (recPtr - recPtr % xlogBlcksz)) (recPtr - recPtr % xlogBlcksz)
          (min (recordOffset env recPtr + totalLen) xlogBlcksz)) rst1.reader
      · have hsecond := readPageInternal_served hstorage hal hbelow hlast fuel
        simp only [hsecond, Option.bind_some]
        rw [if_neg (by omega), and_iff_left hlast]
        simp [Reads]
      · refine iff_of_false ?_ fun h => hlast h.2
        rintro ⟨rst', hrst'⟩
        rcases readPageInternal_not_served hstorage hal hbelow hlast fuel with
          hnone | ⟨rst'', herr⟩
        · rw [hnone] at hrst'
          cases hrst'
        · rw [herr] at hrst'
          simp at hrst'
  · refine iff_of_false ?_ fun h => hs h.2.1
    rintro ⟨rst', hrst'⟩
    simp only [xLogReadRecord] at hrst'
    rcases readPageInternal_not_served hst hal hbelow hs fuel with hnone | ⟨rst'', herr⟩
    · rw [hnone] at hrst'
      cases hrst'
    · rw [herr] at hrst'
      simp at hrst'

/-! ## Which requests are served -/

end Spec

/-! ### A reader without an open segment -/

/-- Segments of 16 MB, all of them in `pg_wal` with valid pages, and an empty ring. -/
def walOnDisk : WalEnv where
  segSize := ⟨24, by decide, by decide⟩
  ring := ⟨16, fun _ => 0, fun _ => 0⟩
  archived _ := false
  inPgWal _ := true
  pread _ := (xlogBlcksz, fun _ => 0)
  headerValid _ _ := true
  inArchiveRecovery := false
  retryDue _ := false

/-- The reader when it has switched to the RPC source. -/
def freshReader : Reader := ⟨false, 0, .any, .rpc, false, false, 0⟩

end GroundDB
