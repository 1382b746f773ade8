import GroundDB.Lib.Chunks

/-!
# The exchange of connection parameters

Before two nodes are connected they exchange their parameters over a socket.  `sock_sync_data`
writes its own and then reads the peer's in a loop, which asks for the whole amount each time and
stores each piece at the start of the buffer (`Chunks.fill` with one place for all pieces).

`sock_sync_data_exact_iff` says for which answers of the socket this is right whatever the peer
sends: those that give the parameters in one piece, and those with which the exchange fails.
-/

namespace GroundDB

open Chunks Memory

/-- What an exchange leaves behind: the result, or none while it waits in `read`, and the memory and
the number of bytes taken from the socket. -/
structure SockExchange where
  rc : Option Int32
  mem : ℤ → UInt8
  consumed : ℕ

/-- `rc` after the call of `write`, which returned `written`: a short write is an error, unless it
wrote nothing. -/
def writeResult (xferSize written : Int32) : Int32 := if written < xferSize then written else 0

/-- The reading loop.  `reads` are the results of `read(sock, remote_data, xfer_size)`; end of
stream is the result `0`, after which the loop reads again. -/
def readLoop (xferSize : Int32) (reads : List (Result xferSize.toInt.toNat)) (remoteData : ℤ)
    (stream : ℕ → UInt8) (mem : ℤ → UInt8) : Status × State UInt8 :=
  fill xferSize (fun _ => remoteData) stream reads ⟨0, 0, 0, mem⟩

/-- What the loop, entered with `rc = 0`, leaves in `rc`. -/
def readResult : Status × State UInt8 → Option Int32
  | (.failed, st) => some st.last
  | (.full, _) => some 0
  | (.waiting, _) => none

/-- The body of `sock_sync_data`. -/
def exchangeData (xferSize written : Int32) (reads : List (Result xferSize.toInt.toNat))
    (remoteData : ℤ) (stream : ℕ → UInt8) (mem : ℤ → UInt8) : SockExchange :=
  if writeResult xferSize written = 0 then
    let loop := readLoop xferSize reads remoteData stream mem
    { rc := readResult loop, mem := loop.2.mem, consumed := loop.2.taken }
  else { rc := some (writeResult xferSize written), mem := mem, consumed := 0 }

/-- `sock_sync_data` of the memory pool's utilities. -/
def sockSyncData := exchangeData

/-- `RDMA_Manager::sock_sync_data`, which differs in what it prints. -/
def RdmaManager.sockSyncData := exchangeData

/-- The exchange is exact: success means that the peer's first bytes have been stored in order;
nothing else is stored, and no byte behind them is consumed. -/
structure SockExchange.Exact (xferSize : Int32) (remoteData : ℤ) (stream : ℕ → UInt8)
    (mem : ℤ → UInt8) (out : SockExchange) : Prop where
  stored : out.rc = some 0 → ∀ i < xferSize.toInt.toNat, out.mem (remoteData + i) = stream i
  inside : SameOutside remoteData xferSize.toInt.toNat mem out.mem
  consumed_le : out.consumed ≤ xferSize.toInt.toNat

/-- The peer's parameters come in one piece, or the exchange fails. -/
def OnePiece (xferSize written : Int32) (reads : List (Result xferSize.toInt.toNat)) : Prop :=
  xferSize.toInt ≤ 0 ∨ (written < xferSize ∧ written ≠ 0) ∨
    firstPiece reads = some xferSize.toInt.toNat ∨ delivered reads < xferSize.toInt.toNat

section Exact

variable {xferSize written : Int32} {reads : List (Result xferSize.toInt.toNat)} {remoteData : ℤ}
  {stream : ℕ → UInt8} {mem : ℤ → UInt8}

lemma writeResult_ne_zero_iff :
    writeResult xferSize written ≠ 0 ↔ written < xferSize ∧ written ≠ 0 := by
  unfold writeResult
  split_ifs with h <;> simp [h]

lemma readResult_eq_zero {out : Status × State UInt8}
    (hlast : out.1 = .failed → out.2.last = -1) : readResult out = some 0 ↔ out.1 = .full := by
  obtain ⟨status, st⟩ := out
  cases status with
  | failed => simp [readResult, show st.last = -1 from hlast rfl]
  | full => simp [readResult]
  | waiting => simp [readResult]

lemma readResult_readLoop : readResult (readLoop xferSize reads remoteData stream mem) = some 0 ↔
    (readLoop xferSize reads remoteData stream mem).1 = .full :=
  readResult_eq_zero last_of_failed

lemma readLoop_inside : SameOutside remoteData xferSize.toInt.toNat mem
    (readLoop xferSize reads remoteData stream mem).2.mem := by
  refine fill_invariant (P := fun st => SameOutside remoteData xferSize.toInt.toNat mem st.mem)
    ?_ (fun _ h => h) reads SameOutside.refl
  intro st n h _
  exact h.write (by rw [length_piece]; omega)

lemma readLoop_of_nonpos (h : xferSize.toInt ≤ 0) :
    readLoop xferSize reads remoteData stream mem = (.full, ⟨0, 0, 0, mem⟩) := by
  apply fill_of_ge
  rw [(counts_start 0 mem).lt_iff]
  exact not_lt.mpr h

lemma SockExchange.Exact.of_nothing_read {rc : Option Int32}
    (h : rc = some 0 → xferSize.toInt ≤ 0) :
    SockExchange.Exact xferSize remoteData stream mem ⟨rc, mem, 0⟩ := by
  refine ⟨fun hrc i hi => ?_, SameOutside.refl, Nat.zero_le _⟩
  have := h hrc
  omega

lemma exact_readLoop (hstored : (readLoop xferSize reads remoteData stream mem).1 = .full →
      (readLoop xferSize reads remoteData stream mem).2.mem =
        write mem remoteData (piece stream 0 xferSize.toInt.toNat))
    (htaken : (readLoop xferSize reads remoteData stream mem).2.taken ≤ xferSize.toInt.toNat) :
    SockExchange.Exact xferSize remoteData stream mem
      ⟨readResult (readLoop xferSize reads remoteData stream mem),
        (readLoop xferSize reads remoteData stream mem).2.mem,
        (readLoop xferSize reads remoteData stream mem).2.taken⟩ := by
  refine ⟨fun hrc i hi => ?_, readLoop_inside, htaken⟩
  simpa [hstored (readResult_readLoop.mp hrc)] using write_piece mem remoteData stream 0 hi

/-- **An exchange in one piece is exact**, and so is one that fails. -/
lemma OnePiece.exact (h : OnePiece xferSize written reads) :
    (exchangeData xferSize written reads remoteData stream mem).Exact xferSize remoteData stream
      mem := by
  unfold exchangeData
  split_ifs with hrc
  · rcases h with hneg | hwrite | hfirst | hshort
    · rw [readLoop_of_nonpos hneg]
      apply SockExchange.Exact.of_nothing_read
      exact fun _ => hneg
    · exact (writeResult_ne_zero_iff.mpr hwrite hrc).elim
    · have hpiece := fill_firstPiece remoteData stream (counts_start 0 mem) rfl hfirst
      exact exact_readLoop (fun _ => hpiece.1) hpiece.2.le
    · have hless : ((0 : ℕ) + delivered reads : ℤ) < xferSize.toInt := by omega
      have hloop := fill_short (fun _ => remoteData) stream (counts_start 0 mem) hless
      have htaken : (readLoop xferSize reads remoteData stream mem).2.taken =
        0 + delivered reads := hloop.2
      exact exact_readLoop (fun hfull => absurd hfull hloop.1) (by omega)
  · apply SockExchange.Exact.of_nothing_read
    exact fun hzero => absurd (Option.some.inj hzero) hrc

/-- A stream whose first byte differs from all others. -/
def markedStream (i : ℕ) : UInt8 := if i = 0 then 0 else 1

/-- **If the peer's bytes come in several pieces**, some streams are not received as they were sent.
-/
lemma onePiece_of_exact (remoteData : ℤ)
    (h : (exchangeData xferSize written reads remoteData markedStream fun _ => 0).Exact xferSize
      remoteData markedStream fun _ => 0) : OnePiece xferSize written reads := by
  by_contra hnot
  simp only [OnePiece, not_or, not_le, not_lt] at hnot
  obtain ⟨hpos, hwrite, hfirst, henough⟩ := hnot
  have hrc : writeResult xferSize written = 0 := by
    by_contra hne
    exact hwrite (writeResult_ne_zero_iff.mp hne)
  rw [exchangeData, if_pos hrc] at h
  have hpieces : ∀ k, firstPiece reads = some k → (k : ℤ) < xferSize.toInt := by
    intro k hk
    have hle := (firstPiece_bounds hk).2
    have hne : k ≠ xferSize.toInt.toNat := fun heq => hfirst (heq ▸ hk)
    omega
  rcases fill_overwrites remoteData markedStream (counts_start 0 fun _ => 0) rfl hpos (by omega)
    hpieces with ⟨hfull, p, hp, hcell⟩ | hover
  · have hzero := h.stored (readResult_readLoop.mpr hfull) 0 (by omega)
    simp only [readLoop, Nat.cast_zero, add_zero, hcell] at hzero
    simp [markedStream, hp.ne'] at hzero
  · have hle := h.consumed_le
    simp only [readLoop] at hle
    omega

/-- **The exchange over a socket** is exact for every stream and memory just if the peer's bytes
come in one piece or the exchange fails.  This holds of both copies of the routine. -/
theorem sock_sync_data_exact_iff (xferSize written : Int32)
    (reads : List (Result xferSize.toInt.toNat)) (remoteData : ℤ) :
    (∀ stream mem,
      (sockSyncData xferSize written reads remoteData stream mem).Exact xferSize remoteData stream
        mem ∧
      (RdmaManager.sockSyncData xferSize written reads remoteData stream mem).Exact xferSize
        remoteData stream mem) ↔
    OnePiece xferSize written reads := by
  constructor
  · exact fun h => onePiece_of_exact remoteData (h _ _).1
  · exact fun h stream mem => ⟨h.exact, h.exact⟩

/-- Four bytes `0 1 2 3` in two pieces: the exchange returns success, with `2 3` and two bytes of
the old content in the buffer. -/
theorem two_pieces_received_wrong :
    let out := sockSyncData 4 4 [.got 2, .got 2] 0 UInt8.ofNat fun _ => 9
    out.rc = some 0 ∧ out.mem 0 = 2 ∧ out.mem 1 = 3 ∧ out.mem 2 = 9 ∧ out.mem 3 = 9 := by
  decide

end Exact

end GroundDB
