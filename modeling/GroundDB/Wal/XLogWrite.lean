import GroundDB.Lib.Run
import GroundDB.Wal.Layout

/-!
# Shipping WAL to the storage node

`XLogWrite` on the compute node gathers consecutive pages of the WAL buffers and dumps them with
calls of `RpcXLogWrite`, again and again until `pg_pwrite` on the storage node has accepted all
bytes.  `RpcXLogWrite` writes the bytes to the segment file, copies the pages to a ring and advances
`RpcXLogFlushedLsn`.

A run takes one iteration of a loop at a time: a page is added to those gathered, or one call is
made.  In between other backends insert into the WAL buffers.  Kept besides what the nodes keep are
the positions whose bytes `pg_pwrite` has accepted, and the byte last sent for each position.
-/

namespace GroundDB

/-! ## The storage node -/

/-- The WAL side of the storage node.  `accepted` are the positions of WAL bytes that `pg_pwrite`
has accepted. -/
structure StorageWal where
  ring : RpcRing
  flushedLsn : ℕ
  accepted : ℕ → Bool

/-- The arguments of `RpcXLogWrite`.  The file `fd` is the segment with that number. -/
structure XLogWriteArgs where
  fd : ℕ
  page : ℕ → UInt8
  amount : ℕ
  offset : ℕ
  xlblocks : List ℕ
  blknum : ℕ
  idx : ℕ
  lsn : ℕ

section Storage

variable (z : WalSegSize)

/-- The WAL position the bytes of a call belong to. -/
def XLogWriteArgs.position (args : XLogWriteArgs) : ℕ := args.fd * z.size + args.offset

/-- The loop that sets `RpcXlblocks`. -/
def setXlblocks (xlogBuffers idx : ℕ) (tags : List ℕ) (blknum : ℕ) (xlblocks : ℕ → ℕ) : ℕ → ℕ :=
  (List.range blknum).foldl
    (fun xlblocks i => Function.update xlblocks ((idx + i) % xlogBuffers) (tags.getD i 0)) xlblocks

/-- The copy of `blknum` whole pages to the ring.  Behind the `amount` bytes that were sent it reads
`overread`, whatever that is. -/
def copyPages (args : XLogWriteArgs) (overread : ℕ → UInt8) (pages : ℕ → UInt8) : ℕ → UInt8 :=
  fun a =>
    if xlogBlcksz * args.idx ≤ a ∧ a < xlogBlcksz * args.idx + xlogBlcksz * args.blknum then
      let k := a - xlogBlcksz * args.idx
      if k < args.amount then args.page k else overread k
    else pages a

/-- `RpcXLogWrite`, when `pg_pwrite` returns `result`.  What lies behind `lsn` on the last page is
not WAL yet. -/
def rpcXLogWrite (s : StorageWal) (args : XLogWriteArgs) (result : ℤ) (overread : ℕ → UInt8) :
    StorageWal where
  ring :=
    { xlogBuffers := s.ring.xlogBuffers
      xlblocks := setXlblocks s.ring.xlogBuffers args.idx args.xlblocks args.blknum s.ring.xlblocks
      pages := copyPages args overread s.ring.pages }
  flushedLsn := if s.flushedLsn < args.lsn then args.lsn else s.flushedLsn
  accepted x := s.accepted x ||
    (decide (args.position z ≤ x) && decide ((x : ℤ) < args.position z + result) &&
      decide (x < args.lsn))

end Storage

/-! ## The compute node -/

/-- The local variables of `XLogWrite` in its loop: the request, the local copy of
`LogwrtResult.Write`, and the pages gathered so far. -/
structure Gather where
  writeRqst : ℕ
  flexible : Bool
  write : ℕ
  curridx : ℕ
  npages : ℕ
  startidx : ℕ
  startoffset : ℕ

/-- The variables of the dump loop.  `src` is the variable `from`, as an offset in the buffers. -/
structure Dump where
  src : ℕ
  nleft : ℕ
  isPartialPage : Bool

/-- What the backend that holds `WALWriteLock` is doing. -/
inductive Phase
  | idle
  | gathering (g : Gather)
  | dumping (g : Gather) (d : Dump)
  | panicked

/-- The WAL side of the compute node: the shared `LogwrtResult.Write`, the WAL buffers and the
segment that is open. -/
structure ComputeWal where
  write : ℕ
  pages : ℕ → UInt8
  xlblocks : ℕ → ℕ
  openLogSegNo : Option ℕ

/-- Both nodes, and the byte last sent for each WAL position. -/
structure Ship where
  compute : ComputeWal
  phase : Phase
  storage : StorageWal
  lastSent : ℕ → Option UInt8

/-- A step: a call of `XLogWrite`, a change of the WAL buffers by other backends, an iteration of
the page loop, or one call of `RpcXLogWrite` with what `pg_pwrite` returns, whether the client finds
`errno` to be `EINTR`, and what the copy reads behind the bytes sent. -/
inductive ShipOp
  | xLogWrite (writeRqst : ℕ) (flexible : Bool)
  | insert (pages : ℕ → UInt8) (xlblocks : ℕ → ℕ)
  | page
  | rpc (result : ℤ) (eintr : Bool) (overread : ℕ → UInt8)

section Compute

variable (z : WalSegSize) (xlogBuffers : ℕ)

/-- `NextBufIdx`. -/
def nextBufIdx (idx : ℕ) : ℕ := if idx = xlogBuffers - 1 then 0 else idx + 1

/-- Leave `XLogWrite` and publish `LogwrtResult`. -/
def Ship.leave (s : Ship) (write : ℕ) : Ship :=
  { s with compute := { s.compute with write := write }, phase := .idle }

/-- Have the segment open that the page before `endPtr` is in. -/
def ComputeWal.openSegment (c : ComputeWal) (endPtr : ℕ) : ComputeWal :=
  { c with openLogSegNo := some ((endPtr - 1) / z.size) }

/-- The page that ends at `endPtr` joins the pages gathered; `offset` is that in a segment. -/
def Gather.addPage (offset : ℕ → ℕ) (g : Gather) (endPtr : ℕ) : Gather :=
  { g with
    write := endPtr
    startidx := if g.npages = 0 then g.curridx else g.startidx
    startoffset := if g.npages = 0 then offset (endPtr - xlogBlcksz) else g.startoffset
    npages := g.npages + 1 }

/-- The pages gathered are dumped now. -/
def Gather.mustDump (segSize : ℕ) (g : Gather) : Bool :=
  let isPartialPage := decide (g.writeRqst < g.write)
  let lastIteration := decide (g.writeRqst ≤ g.write)
  let finishingSeg := !isPartialPage && decide (segSize ≤ g.startoffset + g.npages * xlogBlcksz)
  lastIteration || g.curridx == xlogBuffers - 1 || finishingSeg

/-- One iteration of the loop over pages, up to the dump. -/
def gatherPage (s : Ship) (g : Gather) : Ship :=
  if g.write < g.writeRqst then
    let endPtr := s.compute.xlblocks g.curridx
    if endPtr ≤ g.write then { s with phase := .panicked }
    else
      let g' := g.addPage z.offset endPtr
      let phase := if g'.mustDump xlogBuffers z.size then
          .dumping g'
            { src := g'.startidx * xlogBlcksz
              nleft := g'.npages * xlogBlcksz
              isPartialPage := decide (g'.writeRqst < g'.write) }
        else .gathering { g' with curridx := nextBufIdx xlogBuffers g'.curridx }
      { s with compute := s.compute.openSegment z endPtr, phase := phase }
  else s.leave g.write

/-- What follows a dump. -/
def afterDump (s : Ship) (g : Gather) (d : Dump) : Ship :=
  if d.isPartialPage then s.leave g.writeRqst
  else if g.flexible then s.leave g.write
  else
    let g := { g with npages := 0, curridx := nextBufIdx xlogBuffers g.curridx }
    { s with phase := .gathering g }

/-- The LSN that is sent with a dump. -/
def dumpLsn (g : Gather) (d : Dump) : ℕ := if d.isPartialPage then g.writeRqst else g.write

/-- `RpcXLogWriteWithPosition`: the arguments of a call. -/
def rpcArgs (c : ComputeWal) (fd : ℕ) (g : Gather) (d : Dump) : XLogWriteArgs where
  fd := fd
  page k := c.pages (d.src + k)
  amount := d.nleft
  offset := g.startoffset
  xlblocks := (List.range g.npages).map fun i => c.xlblocks ((g.startidx + i) % xlogBuffers)
  blknum := g.npages
  idx := g.startidx
  lsn := dumpLsn g d

/-- What was last sent for each position, after a call. -/
def sentAfter (lastSent : ℕ → Option UInt8) (args : XLogWriteArgs) : ℕ → Option UInt8 :=
  fun x =>
    if args.position z ≤ x ∧ x < args.position z + args.amount then
      some (args.page (x - args.position z))
    else lastSent x

/-- A call of `RpcXLogWrite` in the dump loop, and what the client makes of its result. -/
def dumpCall (s : Ship) (g : Gather) (d : Dump) (result : ℤ) (eintr : Bool)
    (overread : ℕ → UInt8) : Option Ship := do
  let fd ← s.compute.openLogSegNo
  let args := rpcArgs xlogBuffers s.compute fd g d
  let s := { s with
    storage := rpcXLogWrite z s.storage args result overread
    lastSent := sentAfter z s.lastSent args }
  if result ≤ 0 then
    some (if eintr then s else { s with phase := .panicked })
  else
    let written := result.toNat
    let g := { g with startoffset := g.startoffset + written }
    let d := { d with src := d.src + written, nleft := d.nleft - written }
    some (if 0 < d.nleft then { s with phase := .dumping g d } else afterDump xlogBuffers s g d)

/-- The effect of a step. -/
def shipStep (s : Ship) : ShipOp → Option Ship
  | .xLogWrite writeRqst flexible =>
      match s.phase with
      | .idle =>
          let g :=
            { writeRqst := writeRqst
              flexible := flexible
              write := s.compute.write
              curridx := bufIdx xlogBuffers s.compute.write
              npages := 0
              startidx := 0
              startoffset := 0 }
          some { s with phase := .gathering g }
      | _ => none
  | .insert pages xlblocks =>
      some { s with compute := { s.compute with pages := pages, xlblocks := xlblocks } }
  | .page =>
      match s.phase with
      | .gathering g => some (gatherPage z xlogBuffers s g)
      | _ => none
  | .rpc result eintr overread =>
      match s.phase with
      | .dumping g d => dumpCall z xlogBuffers s g d result eintr overread
      | _ => none

end Compute

/-! ## Runs -/

/-- The WAL buffers hold the page at `p` in slot `XLogRecPtrToBufIdx(p)`.  The slot of a page that
is not written yet is not given to a later page. -/
def BuffersHold (xlogBuffers write : ℕ) (xlblocks : ℕ → ℕ) : Prop :=
  ∀ i < xlogBuffers, xlblocks i = 0 ∨ ∃ q, xlogBlcksz ∣ q ∧ bufIdx xlogBuffers q = i ∧
    q < write / xlogBlcksz * xlogBlcksz + xlogBuffers * xlogBlcksz ∧ xlblocks i = q + xlogBlcksz

/-- The buffers when the compute node starts. -/
structure StartBuffers (xlogBuffers : ℕ) where
  write : ℕ
  pages : ℕ → UInt8
  xlblocks : ℕ → ℕ
  pos : 0 < xlogBuffers
  holds : BuffersHold xlogBuffers write xlblocks

/-- Nothing is sent yet; the WAL before `write` is on the storage node. -/
def Ship.init {xlogBuffers : ℕ} (b : StartBuffers xlogBuffers) : Ship where
  compute := ⟨b.write, b.pages, b.xlblocks, none⟩
  phase := .idle
  storage := ⟨⟨xlogBuffers, fun _ => 0, fun _ => 0⟩, 0, fun x => decide (x < b.write)⟩
  lastSent _ := none

/-- Other backends keep the buffers in order and replace pages by later ones only; `pg_pwrite`
accepts at most what it is given. -/
def ShipAllowed (xlogBuffers : ℕ) (s : Ship) : ShipOp → Prop
  | .insert _ xlblocks => BuffersHold xlogBuffers s.compute.write xlblocks ∧
      ∀ i < xlogBuffers, s.compute.xlblocks i ≤ xlblocks i
  | .rpc result _ _ => ∀ g d, s.phase = .dumping g d → result ≤ d.nleft
  | _ => True

/-- One step of a run. -/
def ShipStep (z : WalSegSize) (xlogBuffers : ℕ) (s : Ship) (op : ShipOp) (s' : Ship) : Prop :=
  ShipAllowed xlogBuffers s op ∧ shipStep z xlogBuffers s op = some s'

/-! ## Which pages are gathered -/

/-- The gathered pages are the `npages` pages from `start` on: their slots are consecutive and hold
them, and they are in the open segment.  `done` bytes are accepted already. -/
structure PagesOk (z : WalSegSize) (xlogBuffers : ℕ) (c : ComputeWal) (g : Gather)
    (start done : ℕ) : Prop where
  aligned : xlogBlcksz ∣ start
  window : c.write / xlogBlcksz * xlogBlcksz ≤ start
  write_eq : g.write = start + g.npages * xlogBlcksz
  startidx_eq : g.startidx = bufIdx xlogBuffers start
  fits : g.startidx + g.npages ≤ xlogBuffers
  tags : ∀ i < g.npages, c.xlblocks (g.startidx + i) = start + i * xlogBlcksz + xlogBlcksz
  seg : c.openLogSegNo = some (z.segNo start)
  offset_eq : g.startoffset = z.offset start + done
  in_seg : z.offset start + g.npages * xlogBlcksz ≤ z.size

/-- What holds while pages are gathered. -/
structure GatherOk (z : WalSegSize) (xlogBuffers : ℕ) (c : ComputeWal) (g : Gather) : Prop where
  write_le : c.write ≤ g.write
  curridx_eq : g.curridx = bufIdx xlogBuffers g.write
  more : g.npages ≠ 0 → g.write < g.writeRqst
  pages : g.npages ≠ 0 → ∃ start, PagesOk z xlogBuffers c g start 0 ∧
    g.startidx + g.npages < xlogBuffers ∧ z.offset start + g.npages * xlogBlcksz < z.size

/-- What holds while pages from `start` on are dumped and `done` bytes are accepted. -/
structure DumpOk (z : WalSegSize) (xlogBuffers : ℕ) (c : ComputeWal) (g : Gather) (d : Dump)
    (start done : ℕ) : Prop where
  pages : PagesOk z xlogBuffers c g start done
  npages_pos : 0 < g.npages
  curridx_eq : g.curridx + 1 = g.startidx + g.npages
  write_le : c.write ≤ g.writeRqst
  nleft_eq : d.nleft + done = g.npages * xlogBlcksz
  nleft_pos : 0 < d.nleft
  src_eq : d.src = g.startidx * xlogBlcksz + done
  partial_iff : d.isPartialPage = decide (g.writeRqst < g.write)

/-- The invariant of the phase. -/
def PhaseOk (z : WalSegSize) (xlogBuffers : ℕ) (c : ComputeWal) : Phase → Prop
  | .idle => True
  | .panicked => True
  | .gathering g => GatherOk z xlogBuffers c g
  | .dumping g d => ∃ start done, DumpOk z xlogBuffers c g d start done

/-- The invariant of a run. -/
structure ShipOk (z : WalSegSize) (xlogBuffers : ℕ) (s : Ship) : Prop where
  pos : 0 < xlogBuffers
  holds : BuffersHold xlogBuffers s.compute.write s.compute.xlblocks
  ring_size : s.storage.ring.xlogBuffers = xlogBuffers
  phase : PhaseOk z xlogBuffers s.compute s.phase

section Pages

variable {z : WalSegSize} {xlogBuffers : ℕ} {c : ComputeWal} {s s' : Ship} {g : Gather} {d : Dump}
  {start done : ℕ}

/-- A slot with a tag beyond an unwritten page of it holds that page. -/
lemma BuffersHold.tag_eq {write p : ℕ} {xlblocks : ℕ → ℕ}
    (h : BuffersHold xlogBuffers write xlblocks) (hn : 0 < xlogBuffers) (hal : xlogBlcksz ∣ p)
    (hwindow : write / xlogBlcksz * xlogBlcksz ≤ p) (hlt : p < xlblocks (bufIdx xlogBuffers p)) :
    xlblocks (bufIdx xlogBuffers p) = p + xlogBlcksz := by
  rcases h _ (bufIdx_lt hn p) with hzero | ⟨q, hq, hidx, hnear, htag⟩
  · omega
  · rw [htag] at hlt ⊢
    have hle : p ≤ q := by
      obtain ⟨a, rfl⟩ := hal
      obtain ⟨b, rfl⟩ := hq
      rw [← Nat.mul_succ] at hlt
      have := Nat.lt_of_mul_lt_mul_left hlt
      exact Nat.mul_le_mul_left _ (by omega)
    rw [eq_of_bufIdx_eq hal hq hidx hle (by omega)]

lemma BuffersHold.mono {write write' : ℕ} {xlblocks : ℕ → ℕ}
    (h : BuffersHold xlogBuffers write xlblocks) (hle : write ≤ write') :
    BuffersHold xlogBuffers write' xlblocks := by
  intro i hi
  rcases h i hi with hzero | ⟨q, hq, hidx, hnear, htag⟩
  · exact Or.inl hzero
  · have := Nat.mul_le_mul_right xlogBlcksz (Nat.div_le_div_right hle : write / xlogBlcksz ≤ _)
    exact Or.inr ⟨q, hq, hidx, by omega, htag⟩

/-- **The page at `write`** is the one its slot holds, unless `XLogWrite` panics. -/
lemma GatherOk.endPtr_eq (h : GatherOk z xlogBuffers c g) (hn : 0 < xlogBuffers)
    (hholds : BuffersHold xlogBuffers c.write c.xlblocks) (hlt : g.write < c.xlblocks g.curridx) :
    c.xlblocks g.curridx = g.write / xlogBlcksz * xlogBlcksz + xlogBlcksz := by
  have hidx : g.curridx = bufIdx xlogBuffers (g.write / xlogBlcksz * xlogBlcksz) := by
    rw [bufIdx_pageStart, h.curridx_eq]
  have hpage : g.write / xlogBlcksz * xlogBlcksz ≤ g.write := Nat.div_mul_le_self _ _
  rw [hidx] at hlt ⊢
  exact hholds.tag_eq hn (Nat.dvd_mul_left _ _)
    (Nat.mul_le_mul_right _ (Nat.div_le_div_right h.write_le)) (by omega)

lemma GatherOk.addFirstPage (h : GatherOk z xlogBuffers c g) (hn : 0 < xlogBuffers)
    (hfirst : g.npages = 0) {endPtr : ℕ} (htag : c.xlblocks g.curridx = endPtr)
    (hend : endPtr = g.write / xlogBlcksz * xlogBlcksz + xlogBlcksz) :
    PagesOk z xlogBuffers (c.openSegment z endPtr) (g.addPage z.offset endPtr)
      (g.write / xlogBlcksz * xlogBlcksz) 0 := by
  set start := g.write / xlogBlcksz * xlogBlcksz
  have hal : xlogBlcksz ∣ start := Nat.dvd_mul_left _ _
  have hinseg := z.offset_add_blcksz_le hal
  have hone : (g.addPage z.offset endPtr).npages = 1 := by simp [Gather.addPage, hfirst]
  have hidx : (g.addPage z.offset endPtr).startidx = g.curridx := by simp [Gather.addPage, hfirst]
  refine ⟨hal, Nat.mul_le_mul_right _ (Nat.div_le_div_right h.write_le), ?_, ?_, ?_, ?_, ?_, ?_, ?_⟩
  · rw [hone, Nat.one_mul]
    exact hend
  · rw [hidx, h.curridx_eq, bufIdx_pageStart]
  · have := bufIdx_lt hn g.write
    rw [hidx, hone, h.curridx_eq]
    exact this
  · intro i hi
    obtain rfl : i = 0 := by omega
    rw [hidx]
    change c.xlblocks (g.curridx + 0) = start + 0 * xlogBlcksz + xlogBlcksz
    rw [Nat.add_zero, Nat.zero_mul, Nat.add_zero, htag, hend]
  · change some ((endPtr - 1) / z.size) = _
    rw [hend, z.segNo_of_offset_add_le (by decide) hinseg]
  · simp [Gather.addPage, hfirst, hend]
  · rw [hone, Nat.one_mul]
    exact hinseg

lemma PagesOk.addPage (h : PagesOk z xlogBuffers c g start 0)
    (hfit : g.startidx + g.npages < xlogBuffers)
    (hseg : z.offset start + g.npages * xlogBlcksz < z.size) (hmore : g.npages ≠ 0)
    (hcur : g.curridx = bufIdx xlogBuffers g.write) {endPtr : ℕ}
    (htag : c.xlblocks g.curridx = endPtr) (hend : endPtr = g.write + xlogBlcksz) :
    PagesOk z xlogBuffers (c.openSegment z endPtr) (g.addPage z.offset endPtr) start 0 ∧
      g.curridx = g.startidx + g.npages := by
  have hslot : g.curridx = g.startidx + g.npages := by
    rw [hcur, h.write_eq, h.startidx_eq]
    exact bufIdx_add (h.startidx_eq ▸ hfit)
  have hinseg : z.offset start + (g.npages + 1) * xlogBlcksz ≤ z.size := by
    have hal : xlogBlcksz ∣ start + g.npages * xlogBlcksz :=
      Nat.dvd_add h.aligned (Nat.dvd_mul_left _ _)
    have := z.offset_add_blcksz_le hal
    rw [z.offset_add_of_lt hseg] at this
    rw [Nat.add_mul]
    omega
  have hwrite : endPtr = start + (g.npages + 1) * xlogBlcksz := by
    rw [hend, h.write_eq, Nat.add_mul]
    omega
  have hidx : (g.addPage z.offset endPtr).startidx = g.startidx := by simp [Gather.addPage, hmore]
  refine ⟨⟨h.aligned, h.window, hwrite, ?_, ?_, ?_, ?_, ?_, hinseg⟩, hslot⟩
  · rw [hidx, h.startidx_eq]
  · rw [hidx]
    exact hfit
  · intro i hi
    rw [hidx]
    rcases Nat.lt_or_eq_of_le (Nat.lt_succ_iff.mp hi) with hlt | rfl
    · exact h.tags i hlt
    · change c.xlblocks (g.startidx + g.npages) = _
      rw [← hslot, htag, hend, h.write_eq]
  · change some ((endPtr - 1) / z.size) = _
    rw [hwrite, z.segNo_of_offset_add_le (by unfold xlogBlcksz; omega) hinseg]
  · simp [Gather.addPage, hmore, h.offset_eq]

/-- **The page at `write` joins the pages gathered.** -/
lemma GatherOk.addPage (h : GatherOk z xlogBuffers c g) (hn : 0 < xlogBuffers)
    (hholds : BuffersHold xlogBuffers c.write c.xlblocks) {endPtr : ℕ}
    (htag : c.xlblocks g.curridx = endPtr) (hlt : g.write < endPtr) :
    ∃ start, PagesOk z xlogBuffers (c.openSegment z endPtr) (g.addPage z.offset endPtr) start 0 ∧
      start ≤ g.write - g.npages * xlogBlcksz ∧
      g.curridx + 1 = (g.addPage z.offset endPtr).startidx + (g.npages + 1) := by
  have hend : endPtr = g.write / xlogBlcksz * xlogBlcksz + xlogBlcksz := by
    rw [← htag]
    exact h.endPtr_eq hn hholds (htag ▸ hlt)
  by_cases hfirst : g.npages = 0
  · refine ⟨_, h.addFirstPage hn hfirst htag hend, ?_, ?_⟩
    · rw [hfirst, Nat.zero_mul]
      exact Nat.div_mul_le_self _ _
    · simp [Gather.addPage, hfirst]
  · obtain ⟨start, hp, hfit, hseg⟩ := h.pages hfirst
    have hal : xlogBlcksz ∣ g.write := by
      rw [hp.write_eq]
      exact Nat.dvd_add hp.aligned (Nat.dvd_mul_left _ _)
    rw [Nat.div_mul_cancel hal] at hend
    obtain ⟨hp', hslot⟩ := hp.addPage hfit hseg hfirst h.curridx_eq htag hend
    refine ⟨start, hp', ?_, ?_⟩
    · rw [hp.write_eq, Nat.add_sub_cancel]
    · simp only [Gather.addPage, hfirst, if_false]
      omega

/-- Pages that are not dumped yet leave room for another one. -/
lemma Gather.not_mustDump {segSize : ℕ} (h : g.mustDump xlogBuffers segSize = false) :
    g.write < g.writeRqst ∧ g.curridx ≠ xlogBuffers - 1 ∧
      g.startoffset + g.npages * xlogBlcksz < segSize := by
  simp only [Gather.mustDump, Bool.or_eq_false_iff, decide_eq_false_iff_not, not_le,
    beq_eq_false_iff_ne, Bool.and_eq_false_iff, Bool.not_eq_false', decide_eq_true_eq] at h
  obtain ⟨⟨hrqst, hidx⟩, hseg⟩ := h
  refine ⟨hrqst, hidx, ?_⟩
  rcases hseg with hpart | hseg
  · omega
  · exact hseg

/-- **The next slot** after the last page gathered is the one of the next page. -/
lemma PagesOk.nextBufIdx_eq (h : PagesOk z xlogBuffers c g start done) {idx : ℕ}
    (hidx : idx + 1 = g.startidx + g.npages) (hn : 0 < xlogBuffers) :
    nextBufIdx xlogBuffers idx = bufIdx xlogBuffers g.write := by
  have hfits := h.fits
  rw [h.write_eq, nextBufIdx]
  split_ifs with hlast
  · -- the pages fill the ring to its end
    rw [bufIdx, Nat.add_mul_div_right _ _ (by decide : 0 < xlogBlcksz)]
    have hstart : start / xlogBlcksz % xlogBuffers + g.npages = xlogBuffers := by
      have := h.startidx_eq
      unfold bufIdx at this
      omega
    rw [← Nat.mod_add_mod, hstart, Nat.mod_self]
  · rw [bufIdx_add (by rw [← h.startidx_eq]; omega), ← h.startidx_eq]
    omega

/-- Pages that are not dumped yet: the next page can be looked at. -/
lemma PagesOk.gatherNext (h : PagesOk z xlogBuffers c g start 0) (hn : 0 < xlogBuffers)
    (hwrite : c.write ≤ g.write) (hcur : g.curridx + 1 = g.startidx + g.npages)
    (hdump : g.mustDump xlogBuffers z.size = false) :
    GatherOk z xlogBuffers c { g with curridx := nextBufIdx xlogBuffers g.curridx } := by
  obtain ⟨hmore, hidx, hseg⟩ := Gather.not_mustDump hdump
  have hoff := h.offset_eq
  have hfits := h.fits
  refine ⟨hwrite, h.nextBufIdx_eq hcur hn, fun _ => hmore, fun _ => ⟨start, ?_, ?_, ?_⟩⟩
  · exact ⟨h.aligned, h.window, h.write_eq, h.startidx_eq, h.fits, h.tags, h.seg, h.offset_eq,
      h.in_seg⟩
  · change g.startidx + g.npages < xlogBuffers
    omega
  · change z.offset start + g.npages * xlogBlcksz < z.size
    omega

lemma DumpOk.position_eq (h : DumpOk z xlogBuffers c g d start done) :
    (rpcArgs xlogBuffers c (z.segNo start) g d).position z = start + done := by
  have := z.segNo_mul_add_offset start
  change z.segNo start * z.size + g.startoffset = start + done
  rw [h.pages.offset_eq]
  omega

/-- The LSN that is sent lies on the pages that are dumped, and not before what is written. -/
lemma DumpOk.lsn_bounds (h : DumpOk z xlogBuffers c g d start done) :
    c.write ≤ dumpLsn g d ∧ dumpLsn g d ≤ start + g.npages * xlogBlcksz := by
  have hrqst := h.write_le
  have hpart := h.partial_iff
  have hwrite := h.pages.write_eq
  unfold dumpLsn
  split_ifs with hp
  · rw [hp] at hpart
    have : g.writeRqst < g.write := by simpa using hpart.symm
    omega
  · have hwindow := h.pages.window
    have hpos := h.npages_pos
    unfold xlogBlcksz at hwindow hwrite ⊢
    omega

lemma DumpOk.goOn (h : DumpOk z xlogBuffers c g d start done) {written : ℕ}
    (hle : written ≤ d.nleft) (hmore : 0 < d.nleft - written) :
    DumpOk z xlogBuffers c { g with startoffset := g.startoffset + written }
      { d with src := d.src + written, nleft := d.nleft - written } start (done + written) := by
  have hp := h.pages
  have hoff := hp.offset_eq
  have hnleft := h.nleft_eq
  have hsrc := h.src_eq
  refine ⟨⟨hp.aligned, hp.window, hp.write_eq, hp.startidx_eq, hp.fits, hp.tags, hp.seg, ?_,
    hp.in_seg⟩, h.npages_pos, h.curridx_eq, h.write_le, ?_, hmore, ?_, h.partial_iff⟩
  · change g.startoffset + written = z.offset start + (done + written)
    omega
  · change d.nleft - written + (done + written) = g.npages * xlogBlcksz
    omega
  · change d.src + written = g.startidx * xlogBlcksz + (done + written)
    omega

/-- **Other backends insert** without disturbing the pages gathered. -/
lemma PagesOk.insert (h : PagesOk z xlogBuffers c g start done) (hn : 0 < xlogBuffers)
    {pages : ℕ → UInt8} {xlblocks : ℕ → ℕ} (hholds : BuffersHold xlogBuffers c.write xlblocks)
    (hgrow : ∀ i < xlogBuffers, c.xlblocks i ≤ xlblocks i) :
    PagesOk z xlogBuffers { c with pages := pages, xlblocks := xlblocks } g start done := by
  refine ⟨h.aligned, h.window, h.write_eq, h.startidx_eq, h.fits, fun i hi => ?_, h.seg,
    h.offset_eq, h.in_seg⟩
  have hfits := h.fits
  have htag := h.tags i hi
  have hge := hgrow (g.startidx + i) (by omega)
  have hslot : g.startidx + i = bufIdx xlogBuffers (start + i * xlogBlcksz) := by
    rw [bufIdx_add (by rw [← h.startidx_eq]; omega), h.startidx_eq]
  have hal : xlogBlcksz ∣ start + i * xlogBlcksz :=
    Nat.dvd_add h.aligned (Nat.dvd_mul_left _ _)
  have hwindow := h.window
  change xlblocks (g.startidx + i) = _
  rw [htag] at hge
  rw [hslot] at hge ⊢
  refine hholds.tag_eq hn hal (by omega) ?_
  have : 0 < xlogBlcksz := by decide
  omega

/-- The state after a call, before the client looks at the result. -/
def Ship.called (z : WalSegSize) (s : Ship) (args : XLogWriteArgs) (result : ℤ)
    (overread : ℕ → UInt8) : Ship :=
  { s with
    storage := rpcXLogWrite z s.storage args result overread
    lastSent := sentAfter z s.lastSent args }

/-! ## Inversion -/

/-- What the client makes of a call of `RpcXLogWrite` in a dump of the pages from `start` on, of
which `done` bytes were accepted before.  `called` is the state after the call. -/
inductive CallEffect (z : WalSegSize) (xlogBuffers : ℕ) (called : Ship) (g : Gather) (d : Dump)
    (start done : ℕ) (result : ℤ) : Ship → Prop
  | again : CallEffect z xlogBuffers called g d start done result called
  | panic : CallEffect z xlogBuffers called g d start done result { called with phase := .panicked }
  /-- The dump goes on behind the bytes accepted. -/
  | goOn {g' : Gather} {d' : Dump} (hpos : 0 < result) (hlsn : dumpLsn g' d' = dumpLsn g d)
      (hd : DumpOk z xlogBuffers called.compute g' d' start (done + result.toNat)) :
      CallEffect z xlogBuffers called g d start done result { called with phase := .dumping g' d' }
  /-- The dump is complete, and `XLogWrite` leaves. -/
  | leave (hwhole : result = d.nleft) :
      CallEffect z xlogBuffers called g d start done result (called.leave (dumpLsn g d))
  /-- The dump is complete, and more pages are wanted. -/
  | next {g' : Gather} (hwhole : result = d.nleft) (hzero : g'.npages = 0)
      (hwrite : g'.write = dumpLsn g d) (hg : GatherOk z xlogBuffers called.compute g') :
      CallEffect z xlogBuffers called g d start done result { called with phase := .gathering g' }

/-- What a step can do when the pages are in order. -/
inductive ShipEffect (z : WalSegSize) (xlogBuffers : ℕ) (s : Ship) : ShipOp → Ship → Prop
  | enter {writeRqst : ℕ} {flexible : Bool} {g : Gather} (hzero : g.npages = 0)
      (hwrite : g.write = s.compute.write) (hg : GatherOk z xlogBuffers s.compute g) :
      ShipEffect z xlogBuffers s (.xLogWrite writeRqst flexible) { s with phase := .gathering g }
  | insert {pages : ℕ → UInt8} {xlblocks : ℕ → ℕ}
      (hholds : BuffersHold xlogBuffers s.compute.write xlblocks)
      (hgrow : ∀ i < xlogBuffers, s.compute.xlblocks i ≤ xlblocks i) :
      ShipEffect z xlogBuffers s (.insert pages xlblocks)
        { s with compute := { s.compute with pages := pages, xlblocks := xlblocks } }
  | leave {g : Gather} (hp : s.phase = .gathering g) (hg : GatherOk z xlogBuffers s.compute g)
      (hzero : g.npages = 0) : ShipEffect z xlogBuffers s .page (s.leave g.write)
  | panic : ShipEffect z xlogBuffers s .page { s with phase := .panicked }
  /-- A page joins the pages gathered. -/
  | gather {g g' : Gather} {endPtr start : ℕ} (hp : s.phase = .gathering g)
      (hstart : start ≤ g.write - g.npages * xlogBlcksz)
      (hwrite : g'.write = start + g'.npages * xlogBlcksz)
      (hg : GatherOk z xlogBuffers (s.compute.openSegment z endPtr) g') :
      ShipEffect z xlogBuffers s .page
        { s with compute := s.compute.openSegment z endPtr, phase := .gathering g' }
  /-- A dump of the pages from `start` on begins. -/
  | dump {g g' : Gather} {d : Dump} {endPtr start : ℕ} (hp : s.phase = .gathering g)
      (hstart : start ≤ g.write - g.npages * xlogBlcksz)
      (hd : DumpOk z xlogBuffers (s.compute.openSegment z endPtr) g' d start 0) :
      ShipEffect z xlogBuffers s .page
        { s with compute := s.compute.openSegment z endPtr, phase := .dumping g' d }
  | rpc {g : Gather} {d : Dump} {start done : ℕ} {result : ℤ} {eintr : Bool}
      {overread : ℕ → UInt8} {s' : Ship} (hp : s.phase = .dumping g d)
      (hd : DumpOk z xlogBuffers s.compute g d start done)
      (hcall : CallEffect z xlogBuffers
        (s.called z (rpcArgs xlogBuffers s.compute (z.segNo start) g d) result overread)
        g d start done result s') : ShipEffect z xlogBuffers s (.rpc result eintr overread) s'

/-- **An iteration over pages** leaves, panics, gathers the page at `write`, or begins a dump. -/
lemma gatherPage_effect (hok : ShipOk z xlogBuffers s) (hp : s.phase = .gathering g)
    (hg : GatherOk z xlogBuffers s.compute g) :
    ShipEffect z xlogBuffers s .page (gatherPage z xlogBuffers s g) := by
  unfold gatherPage
  by_cases hrqst : g.write < g.writeRqst
  · rw [if_pos hrqst]
    set endPtr := s.compute.xlblocks g.curridx with htag
    by_cases hpanic : endPtr ≤ g.write
    · simp only [if_pos hpanic]
      exact .panic
    · obtain ⟨start, hpages, hstart, hcur⟩ :=
        hg.addPage hok.pos hok.holds htag.symm (not_le.mp hpanic)
      have hwrite := hg.write_le
      simp only [if_neg hpanic]
      cases hdump : (g.addPage z.offset endPtr).mustDump xlogBuffers z.size with
      | false =>
          refine .gather hp hstart hpages.write_eq ?_
          exact hpages.gatherNext hok.pos (by change s.compute.write ≤ endPtr; omega) hcur hdump
      | true =>
          refine .dump hp hstart ⟨hpages, Nat.succ_pos _, hcur, ?_, Nat.add_zero _, ?_,
            (Nat.add_zero _).symm, rfl⟩
          · change s.compute.write ≤ g.writeRqst
            omega
          · exact Nat.mul_pos (Nat.succ_pos _) (by decide)
  · rw [if_neg hrqst]
    exact .leave hp hg (not_not.mp fun hne => hrqst (hg.more hne))

/-- **A call in the dump loop** fails, goes on behind the bytes accepted, or completes the dump. -/
lemma dumpCall_effect {result : ℤ} {eintr : Bool} {overread : ℕ → UInt8}
    (h : DumpOk z xlogBuffers s.compute g d start done) (hn : 0 < xlogBuffers)
    (hle : result ≤ d.nleft)
    (hstep : dumpCall z xlogBuffers s g d result eintr overread = some s') :
    CallEffect z xlogBuffers
      (s.called z (rpcArgs xlogBuffers s.compute (z.segNo start) g d) result overread)
      g d start done result s' := by
  simp only [dumpCall, h.pages.seg, Option.bind_eq_bind, Option.bind_some] at hstep
  split_ifs at hstep with hfail heintr hmore
  · cases hstep
    exact .again
  · cases hstep
    exact .panic
  · cases hstep
    exact .goOn (by omega) rfl (h.goOn (by omega) hmore)
  · have hwhole : result = d.nleft := by omega
    have hwindow := h.lsn_bounds.1
    unfold afterDump at hstep
    split_ifs at hstep with hpart hflex <;> cases hstep
    · have hlsn : dumpLsn g d = g.writeRqst := if_pos hpart
      rw [← hlsn]
      exact .leave hwhole
    · have hlsn : dumpLsn g d = g.write := if_neg hpart
      rw [← hlsn]
      exact .leave hwhole
    · have hlsn : dumpLsn g d = g.write := if_neg hpart
      rw [hlsn] at hwindow
      exact .next hwhole rfl hlsn.symm ⟨hwindow, h.pages.nextBufIdx_eq h.curridx_eq hn,
        fun hne => absurd rfl hne, fun hne => absurd rfl hne⟩

/-- **Every step**, from a state in which the pages are in order, is one of those listed. -/
theorem ShipStep.effect {op : ShipOp} (h : ShipOk z xlogBuffers s)
    (hstep : ShipStep z xlogBuffers s op s') : ShipEffect z xlogBuffers s op s' := by
  obtain ⟨hallowed, hstep⟩ := hstep
  have hphase := h.phase
  cases op with
  | xLogWrite writeRqst flexible =>
      cases hp : s.phase with
      | idle =>
          simp only [shipStep, hp, Option.some.injEq] at hstep
          subst hstep
          exact .enter rfl rfl ⟨le_rfl, rfl, fun hne => absurd rfl hne, fun hne => absurd rfl hne⟩
      | _ => simp [shipStep, hp] at hstep
  | insert pages xlblocks =>
      simp only [shipStep, Option.some.injEq] at hstep
      subst hstep
      exact .insert hallowed.1 hallowed.2
  | page =>
      cases hp : s.phase with
      | gathering g =>
          rw [hp] at hphase
          simp only [shipStep, hp, Option.some.injEq] at hstep
          subst hstep
          exact gatherPage_effect h hp hphase
      | _ => simp [shipStep, hp] at hstep
  | rpc result eintr overread =>
      cases hp : s.phase with
      | dumping g d =>
          rw [hp] at hphase
          obtain ⟨start, done, hd⟩ := hphase
          simp only [shipStep, hp] at hstep
          exact .rpc hp hd (dumpCall_effect hd h.pos (hallowed g d hp) hstep)
      | _ => simp [shipStep, hp] at hstep

lemma PhaseOk.insert {phase : Phase} (h : PhaseOk z xlogBuffers c phase) (hn : 0 < xlogBuffers)
    {pages : ℕ → UInt8} {xlblocks : ℕ → ℕ} (hholds : BuffersHold xlogBuffers c.write xlblocks)
    (hgrow : ∀ i < xlogBuffers, c.xlblocks i ≤ xlblocks i) :
    PhaseOk z xlogBuffers { c with pages := pages, xlblocks := xlblocks } phase := by
  cases phase with
  | idle => trivial
  | panicked => trivial
  | gathering g =>
      refine ⟨h.write_le, h.curridx_eq, h.more, fun hne => ?_⟩
      obtain ⟨start, hpages, hfit, hseg⟩ := h.pages hne
      exact ⟨start, hpages.insert hn hholds hgrow, hfit, hseg⟩
  | dumping g d =>
      obtain ⟨start, done, hd⟩ := h
      exact ⟨start, done, hd.pages.insert hn hholds hgrow, hd.npages_pos, hd.curridx_eq,
        hd.write_le, hd.nleft_eq, hd.nleft_pos, hd.src_eq, hd.partial_iff⟩

/-- **Every step** keeps the pages in order. -/
theorem ShipEffect.ok {op : ShipOp} (h : ShipOk z xlogBuffers s)
    (heff : ShipEffect z xlogBuffers s op s') : ShipOk z xlogBuffers s' := by
  cases heff with
  | enter _ _ hg => exact ⟨h.pos, h.holds, h.ring_size, hg⟩
  | insert hholds hgrow =>
      exact ⟨h.pos, hholds, h.ring_size, h.phase.insert h.pos hholds hgrow⟩
  | leave _ hg _ => exact ⟨h.pos, h.holds.mono hg.write_le, h.ring_size, trivial⟩
  | panic => exact ⟨h.pos, h.holds, h.ring_size, trivial⟩
  | gather _ _ _ hg => exact ⟨h.pos, h.holds, h.ring_size, hg⟩
  | dump _ _ hd => exact ⟨h.pos, h.holds, h.ring_size, _, 0, hd⟩
  | rpc _ hd hcall =>
      cases hcall with
      | again => exact ⟨h.pos, h.holds, h.ring_size, h.phase⟩
      | panic => exact ⟨h.pos, h.holds, h.ring_size, trivial⟩
      | goOn _ _ hd' => exact ⟨h.pos, h.holds, h.ring_size, _, _, hd'⟩
      | leave _ => exact ⟨h.pos, h.holds.mono hd.lsn_bounds.1, h.ring_size, trivial⟩
      | next _ _ _ hg => exact ⟨h.pos, h.holds, h.ring_size, hg⟩

lemma shipOk_init (b : StartBuffers xlogBuffers) : ShipOk z xlogBuffers (Ship.init b) :=
  ⟨b.pos, b.holds, rfl, trivial⟩

end Pages

end GroundDB
