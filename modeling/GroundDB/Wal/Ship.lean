import GroundDB.Wal.ReadRecord
import GroundDB.Wal.XLogWrite

/-!
# What the storage node says about the WAL it received

Two properties of the shipping of WAL, over all runs.

* `flushed_wal_accepted`: everything before `RpcXLogFlushedLsn` has been accepted by `pg_pwrite`.
  The position advances with every call, whatever `pg_pwrite` returned, so this needs calls whose
  bytes are accepted as far as the LSN that is sent with them.
* `ring_page_last_sent`: a page served from the ring is what the compute node last sent for it.  A
  call that repeats a dump with the remaining bytes sends them for the same slots, so this needs
  dumps that are not continued after a short write.
-/

namespace GroundDB

variable {z : WalSegSize} {xlogBuffers : ℕ} {s s' : Ship}

/-! ## The flush position -/

/-- Everything before `RpcXLogFlushedLsn` is accepted. -/
def FlushedAccepted (s : Ship) : Prop :=
  ∀ x < s.storage.flushedLsn, s.storage.accepted x = true

/-- In a call that would advance `RpcXLogFlushedLsn`, `pg_pwrite` accepts bytes up to the LSN that
is sent. -/
def AcceptsToLsn (z : WalSegSize) (xlogBuffers : ℕ) (s : Ship) : ShipOp → Prop
  | .rpc result _ _ => ∀ g d fd, s.phase = .dumping g d → s.compute.openLogSegNo = some fd →
      dumpLsn g d ≤ s.storage.flushedLsn ∨
        (dumpLsn g d : ℤ) ≤ (rpcArgs xlogBuffers s.compute fd g d).position z + result
  | _ => True

/-- What is accepted in each phase: all that comes before the pages gathered, or before the point
where the dump stands. -/
def AcceptedPhase (accepted : ℕ → Bool) : Phase → Prop
  | .gathering g => ∀ x < g.write - g.npages * xlogBlcksz, accepted x = true
  | .dumping g d => ∀ x < g.write - d.nleft, x < dumpLsn g d → accepted x = true
  | _ => True

/-- The invariant: what is written is accepted, and so is what is flushed. -/
structure AcceptedOk (s : Ship) : Prop where
  written : ∀ x < s.compute.write, s.storage.accepted x = true
  phase : AcceptedPhase s.storage.accepted s.phase
  flushed : FlushedAccepted s

section Accepted

variable {g : Gather} {d : Dump} {start done : ℕ} {args : XLogWriteArgs} {result : ℤ}
  {overread : ℕ → UInt8}

lemma accepted_called {x : ℕ} (h : s.storage.accepted x = true) :
    (s.called z args result overread).storage.accepted x = true := by
  simp [Ship.called, rpcXLogWrite, h]

lemma accepted_of_result {x : ℕ} (hge : args.position z ≤ x)
    (hlt : (x : ℤ) < args.position z + result) (hlsn : x < args.lsn) :
    (s.called z args result overread).storage.accepted x = true := by
  simp [Ship.called, rpcXLogWrite, hge, hlt, hlsn]

lemma DumpOk.write_sub_nleft {c : ComputeWal} (h : DumpOk z xlogBuffers c g d start done) :
    g.write - d.nleft = start + done := by
  have := h.pages.write_eq
  have := h.nleft_eq
  omega

/-- After a call, the WAL is accepted up to where the dump stands then. -/
lemma accepted_upto_result (hd : DumpOk z xlogBuffers s.compute g d start done)
    (hacc : ∀ x < start + done, x < dumpLsn g d → s.storage.accepted x = true) {x : ℕ}
    (hlt : (x : ℤ) < ((start + done : ℕ) : ℤ) + result ∨ x < start + done)
    (hlsn : x < dumpLsn g d) :
    (s.called z (rpcArgs xlogBuffers s.compute (z.segNo start) g d) result
      overread).storage.accepted x = true := by
  by_cases hbefore : x < start + done
  · exact accepted_called (hacc x hbefore hlsn)
  · refine accepted_of_result ?_ ?_ hlsn
    · rw [hd.position_eq]
      omega
    · rw [hd.position_eq]
      omega

/-- **A call** whose bytes are accepted as far as its LSN keeps the flush position sound. -/
lemma flushed_called (hd : DumpOk z xlogBuffers s.compute g d start done) (h : FlushedAccepted s)
    (hacc : ∀ x < start + done, x < dumpLsn g d → s.storage.accepted x = true)
    (hreach : dumpLsn g d ≤ s.storage.flushedLsn ∨
      (dumpLsn g d : ℤ) ≤ ((start + done : ℕ) : ℤ) + result) :
    FlushedAccepted (s.called z (rpcArgs xlogBuffers s.compute (z.segNo start) g d) result
      overread) := by
  intro x hx
  by_cases hold : x < s.storage.flushedLsn
  · exact accepted_called (h x hold)
  · have hlsn : x < dumpLsn g d := by
      change x < if s.storage.flushedLsn < dumpLsn g d then dumpLsn g d
        else s.storage.flushedLsn at hx
      split_ifs at hx <;> omega
    exact accepted_upto_result hd hacc (by omega) hlsn

/-- **A call**, whatever the client makes of its result, leaves everything accepted that is written
or lies before the point where the dump stands then. -/
lemma AcceptedOk.call (h : AcceptedOk s) (hp : s.phase = .dumping g d)
    (hd : DumpOk z xlogBuffers s.compute g d start done)
    (hreach : dumpLsn g d ≤ s.storage.flushedLsn ∨
      (dumpLsn g d : ℤ) ≤ ((start + done : ℕ) : ℤ) + result)
    (hcall : CallEffect z xlogBuffers
      (s.called z (rpcArgs xlogBuffers s.compute (z.segNo start) g d) result overread)
      g d start done result s') : AcceptedOk s' := by
  have hacc : ∀ x < start + done, x < dumpLsn g d → s.storage.accepted x = true := by
    have hphase := h.phase
    rw [hp] at hphase
    intro x hx
    exact hphase x (by rw [hd.write_sub_nleft]; exact hx)
  have hwritten : ∀ x < s.compute.write, (s.called z
      (rpcArgs xlogBuffers s.compute (z.segNo start) g d) result overread).storage.accepted x := by
    intro x hx
    exact accepted_called (h.written x hx)
  have hflushed : FlushedAccepted (s.called z
      (rpcArgs xlogBuffers s.compute (z.segNo start) g d) result overread) :=
    flushed_called hd h.flushed hacc hreach
  have hnleft := hd.nleft_eq
  have hbound := hd.lsn_bounds.2
  cases hcall with
  | again =>
      refine ⟨hwritten, ?_, hflushed⟩
      change AcceptedPhase _ s.phase
      rw [hp]
      intro x hx hlsn
      exact accepted_called (hacc x (by rw [← hd.write_sub_nleft]; exact hx) hlsn)
  | panic => exact ⟨hwritten, trivial, hflushed⟩
  | goOn hpos hlsn hd' =>
      refine ⟨hwritten, fun x hx hx' => ?_, hflushed⟩
      rw [hd'.write_sub_nleft] at hx
      exact accepted_upto_result hd hacc (by omega) (hlsn ▸ hx')
  | leave hwhole =>
      refine ⟨fun x (hx : x < dumpLsn g d) => ?_, trivial, hflushed⟩
      exact accepted_upto_result hd hacc (by omega) hx
  | next hwhole hzero hwrite _ =>
      refine ⟨hwritten, fun x hx => ?_, hflushed⟩
      rw [hzero, Nat.zero_mul, Nat.sub_zero, hwrite] at hx
      exact accepted_upto_result hd hacc (by omega) hx

/-- **Every step** that accepts up to its LSN keeps the invariant. -/
lemma AcceptedOk.step {op : ShipOp} (h : AcceptedOk s) (hguard : AcceptsToLsn z xlogBuffers s op)
    (heff : ShipEffect z xlogBuffers s op s') : AcceptedOk s' := by
  have hacc := h.phase
  cases heff with
  | enter hzero hwrite _ =>
      refine ⟨h.written, fun x hx => h.written x ?_, h.flushed⟩
      rwa [hzero, hwrite, Nat.zero_mul, Nat.sub_zero] at hx
  | insert _ _ => exact ⟨h.written, h.phase, h.flushed⟩
  | leave hp _ hzero =>
      rw [hp] at hacc
      refine ⟨fun x hx => hacc x ?_, trivial, h.flushed⟩
      rwa [hzero, Nat.zero_mul, Nat.sub_zero]
  | panic => exact ⟨h.written, trivial, h.flushed⟩
  | @gather g g' _ _ hp hstart hwrite _ =>
      rw [hp] at hacc
      refine ⟨h.written, fun x hx => hacc x ?_, h.flushed⟩
      change x < g'.write - g'.npages * xlogBlcksz at hx
      omega
  | dump hp hstart hd =>
      rw [hp] at hacc
      refine ⟨h.written, fun x hx _ => hacc x ?_, h.flushed⟩
      have := hd.write_sub_nleft
      omega
  | rpc hp hd hcall =>
      have hreach := hguard _ _ _ hp hd.pages.seg
      rw [hd.position_eq] at hreach
      exact h.call hp hd hreach hcall

/-- **The flush position is sound** in every run in which each call's bytes are accepted as far as
the LSN that is sent with it. -/
theorem flushed_wal_accepted (b : StartBuffers xlogBuffers) {tr : List ShipOp}
    (hrun : Lts.Run (Lts.Guarded (ShipStep z xlogBuffers) (AcceptsToLsn z xlogBuffers))
      (Ship.init b) tr s) : FlushedAccepted s := by
  have hinit : ShipOk z xlogBuffers (Ship.init b) ∧ AcceptedOk (Ship.init b) := by
    refine ⟨shipOk_init b, fun x hx => ?_, trivial, fun x hx => absurd hx (Nat.not_lt_zero x)⟩
    simpa [Ship.init] using hx
  have hok := hrun.invariant (I := fun s => ShipOk z xlogBuffers s ∧ AcceptedOk s) hinit
    fun t a u ht hs => ⟨(hs.2.effect ht.1).ok ht.1, ht.2.step hs.1 (hs.2.effect ht.1)⟩
  exact hok.2.flushed

end Accepted

/-! ### One page -/

/-- Eight buffers, of which one holds the page at 16384. -/
def onePage : StartBuffers 8 where
  write := 16384
  pages a := UInt8.ofNat a
  xlblocks i := if i = 2 then 24576 else 0
  pos := by decide
  holds := by
    intro i _
    by_cases hi : i = 2
    · subst hi
      exact Or.inr ⟨16384, by decide, by decide, by decide, rfl⟩
    · exact Or.inl (if_neg hi)

/-- Segments of 16 MB. -/
abbrev sixteenMB : WalSegSize := ⟨24, Nat.le_add_left 20 4, Nat.le_add_left 24 6⟩

/-- The page is written up to 16484, and the first `pg_pwrite` returns `result`. -/
abbrev pageSent (result : ℤ) : List ShipOp :=
  [.xLogWrite 16484 false, .page, .rpc result false fun _ => 0]

/-- The page is written up to 16484 and accepted in full. -/
theorem flushed_wal_accepted_one_page :
    ∃ s, Lts.Run (ShipStep sixteenMB 8) (Ship.init onePage) (pageSent 8192) s ∧
      s.storage.flushedLsn = 16484 ∧ FlushedAccepted s := by
  have hex : ∃ s, Lts.Run (Lts.Guarded (ShipStep sixteenMB 8)
        (AcceptsToLsn sixteenMB 8)) (Ship.init onePage) (pageSent 8192) s ∧
      s.storage.flushedLsn = 16484 := by
    refine ⟨_, .cons ⟨trivial, trivial, rfl⟩ (.cons ⟨trivial, trivial, rfl⟩
      (.cons ⟨?_, ?_, rfl⟩ .nil)), rfl⟩
    · intro g d fd hp hfd
      cases hp
      cases hfd
      exact Or.inr (by decide)
    · intro g d hp
      cases hp
      decide
  obtain ⟨s, hrun, hflushed⟩ := hex
  exact ⟨s, hrun.of_guarded, hflushed, flushed_wal_accepted onePage hrun⟩

/-- `pg_pwrite` fails, and `RpcXLogFlushedLsn` advances all the same. -/
theorem flushed_wal_not_accepted :
    ∃ s, Lts.Run (ShipStep sixteenMB 8) (Ship.init onePage) (pageSent (-1)) s ∧
      s.storage.flushedLsn = 16484 ∧ s.storage.accepted 16384 = false ∧ ¬ FlushedAccepted s := by
  refine ⟨_, .cons ⟨trivial, rfl⟩ (.cons ⟨trivial, rfl⟩ (.cons ⟨?_, rfl⟩ .nil)), rfl, by decide,
    fun h => ?_⟩
  · intro g d hp
    cases hp
    decide
  · exact absurd (h 16384 (by decide)) (by decide)

/-! ## The ring -/

/-- A page in the ring is the page its tag says, as it was last sent. -/
def RingOk (xlogBuffers : ℕ) (s : Ship) : Prop :=
  ∀ i < xlogBuffers, ∀ q, s.storage.ring.xlblocks i = q + xlogBlcksz →
    xlogBlcksz ∣ q ∧ bufIdx xlogBuffers q = i ∧
      ∀ j < xlogBlcksz, s.lastSent (q + j) = some (s.storage.ring.pages (xlogBlcksz * i + j))

/-- A call is made for whole pages only: nothing of the dump was accepted before. -/
def SendsWholePages (s : Ship) : ShipOp → Prop
  | .rpc _ _ _ => ∀ g d, s.phase = .dumping g d → d.nleft = g.npages * xlogBlcksz
  | _ => True

lemma setXlblocks_apply {idx blknum : ℕ} (tags : List ℕ) (xlblocks : ℕ → ℕ)
    (hfits : idx + blknum ≤ xlogBuffers) (i : ℕ) :
    setXlblocks xlogBuffers idx tags blknum xlblocks i =
      if idx ≤ i ∧ i < idx + blknum then tags.getD (i - idx) 0 else xlblocks i := by
  induction blknum with
  | zero => simp [setXlblocks, show ¬ (idx ≤ i ∧ i < idx) by omega]
  | succ blknum ih =>
      have hslot : (idx + blknum) % xlogBuffers = idx + blknum := Nat.mod_eq_of_lt (by omega)
      have hlast : setXlblocks xlogBuffers idx tags (blknum + 1) xlblocks =
          Function.update (setXlblocks xlogBuffers idx tags blknum xlblocks) (idx + blknum)
            (tags.getD blknum 0) := by
        simp [setXlblocks, List.range_succ, hslot]
      rw [hlast]
      by_cases hi : i = idx + blknum
      · subst hi
        simp
      · rw [Function.update_of_ne hi, ih (by omega)]
        have : (idx ≤ i ∧ i < idx + (blknum + 1)) ↔ (idx ≤ i ∧ i < idx + blknum) := by omega
        simp only [this]

section Ring

variable {g : Gather} {d : Dump} {start done : ℕ} {result : ℤ} {overread : ℕ → UInt8}

lemma DumpOk.sent_tag {c : ComputeWal} (h : DumpOk z xlogBuffers c g d start done) {fd i : ℕ}
    (hi : i < g.npages) :
    (rpcArgs xlogBuffers c fd g d).xlblocks.getD i 0 = start + i * xlogBlcksz + xlogBlcksz := by
  have hfits := h.pages.fits
  have hslot : (g.startidx + i) % xlogBuffers = g.startidx + i := Nat.mod_eq_of_lt (by omega)
  simp [rpcArgs, hi, hslot, h.pages.tags i hi]

/-- The page at `q` is among the pages of a dump exactly if its slot is among theirs. -/
lemma DumpOk.slot_of_page {c : ComputeWal} (h : DumpOk z xlogBuffers c g d start done) {q x : ℕ}
    (hal : xlogBlcksz ∣ q) (hx : q ≤ x ∧ x < q + xlogBlcksz)
    (hmem : start ≤ x ∧ x < start + g.npages * xlogBlcksz) :
    g.startidx ≤ bufIdx xlogBuffers q ∧ bufIdx xlogBuffers q < g.startidx + g.npages := by
  obtain ⟨k, hk, rfl⟩ : ∃ k < g.npages, q = start + k * xlogBlcksz := by
    obtain ⟨a, rfl⟩ := hal
    obtain ⟨b, hb⟩ := h.pages.aligned
    refine ⟨a - b, ?_, ?_⟩ <;> unfold xlogBlcksz at * <;> omega
  have hfits := h.pages.fits
  have hidx := h.pages.startidx_eq
  rw [bufIdx_add (by omega)]
  omega

/-- What was last sent for each position, after a call for whole pages. -/
lemma DumpOk.lastSent_called (hd : DumpOk z xlogBuffers s.compute g d start 0)
    (hwhole : d.nleft = g.npages * xlogBlcksz) (x : ℕ) :
    (s.called z (rpcArgs xlogBuffers s.compute (z.segNo start) g d) result overread).lastSent x =
      if start ≤ x ∧ x < start + g.npages * xlogBlcksz then
        some (s.compute.pages (g.startidx * xlogBlcksz + (x - start))) else s.lastSent x := by
  have hpos := hd.position_eq
  set args := rpcArgs xlogBuffers s.compute (z.segNo start) g d
  change (if args.position z ≤ x ∧ x < args.position z + d.nleft then
    some (s.compute.pages (d.src + (x - args.position z))) else s.lastSent x) = _
  rw [hpos, hwhole, hd.src_eq, Nat.add_zero, Nat.add_zero]

/-- The bytes of the ring after a call for whole pages: nothing is read behind what was sent. -/
lemma DumpOk.ring_called (hd : DumpOk z xlogBuffers s.compute g d start 0)
    (hwhole : d.nleft = g.npages * xlogBlcksz) (a : ℕ) :
    (s.called z (rpcArgs xlogBuffers s.compute (z.segNo start) g d) result
        overread).storage.ring.pages a =
      if xlogBlcksz * g.startidx ≤ a ∧ a < xlogBlcksz * g.startidx + xlogBlcksz * g.npages then
        s.compute.pages (g.startidx * xlogBlcksz + (a - xlogBlcksz * g.startidx))
      else s.storage.ring.pages a := by
  change (if xlogBlcksz * g.startidx ≤ a ∧
      a < xlogBlcksz * g.startidx + xlogBlcksz * g.npages then
    if a - xlogBlcksz * g.startidx < d.nleft then
      s.compute.pages (d.src + (a - xlogBlcksz * g.startidx)) else overread _
    else s.storage.ring.pages a) = _
  rw [hwhole, hd.src_eq, Nat.add_zero]
  split_ifs with hin hlt
  · rfl
  · rw [Nat.mul_comm g.npages] at hlt
    omega
  · rfl

/-- **A call for whole pages** leaves the pages in the ring as they were last sent. -/
lemma RingOk.called (hok : ShipOk z xlogBuffers s) (h : RingOk xlogBuffers s)
    (hd : DumpOk z xlogBuffers s.compute g d start done)
    (hwhole : d.nleft = g.npages * xlogBlcksz) :
    RingOk xlogBuffers (s.called z (rpcArgs xlogBuffers s.compute (z.segNo start) g d) result
      overread) := by
  obtain rfl : done = 0 := by
    have := hd.nleft_eq
    omega
  have hfits := hd.pages.fits
  have hidx := hd.pages.startidx_eq
  intro i hi q htag
  change setXlblocks s.storage.ring.xlogBuffers g.startidx
    (rpcArgs xlogBuffers s.compute (z.segNo start) g d).xlblocks g.npages
    s.storage.ring.xlblocks i = q + xlogBlcksz at htag
  rw [hok.ring_size, setXlblocks_apply _ _ hfits] at htag
  split_ifs at htag with hslot
  · -- a slot of the dump
    rw [hd.sent_tag (by omega)] at htag
    obtain rfl : q = start + (i - g.startidx) * xlogBlcksz := by omega
    refine ⟨Nat.dvd_add hd.pages.aligned (Nat.dvd_mul_left _ _), ?_, fun j hj => ?_⟩
    · rw [bufIdx_add (by omega)]
      omega
    · rw [hd.lastSent_called hwhole, hd.ring_called hwhole, if_pos, if_pos]
      · congr 2
        unfold xlogBlcksz
        omega
      · unfold xlogBlcksz at hj ⊢
        omega
      · unfold xlogBlcksz at hj ⊢
        omega
  · -- another slot: its page is not among those dumped
    obtain ⟨hal, hbuf, hsent⟩ := h i hi q htag
    refine ⟨hal, hbuf, fun j hj => ?_⟩
    rw [hd.lastSent_called hwhole, hd.ring_called hwhole, if_neg, if_neg, hsent j hj]
    · unfold xlogBlcksz at hj ⊢
      omega
    · intro hmem
      have := hd.slot_of_page hal ⟨Nat.le_add_right q j, by omega⟩ hmem
      omega

/-- **Every step** that sends whole pages keeps the ring in order. -/
lemma RingOk.step {op : ShipOp} (hok : ShipOk z xlogBuffers s) (h : RingOk xlogBuffers s)
    (hguard : SendsWholePages s op) (heff : ShipEffect z xlogBuffers s op s') :
    RingOk xlogBuffers s' := by
  cases heff with
  | rpc hp hd hcall =>
      have hwhole := hguard _ _ hp
      -- what the client makes of the result touches neither the ring nor what was sent
      cases hcall <;> exact h.called hok hd hwhole
  | _ => exact h

/-- **A page from the ring is the page last sent**, in every run in which every call is made for
whole pages: whatever page read finds its page in the ring, the bytes it returns are those the
compute node most recently sent for the page. -/
theorem ring_page_last_sent (b : StartBuffers xlogBuffers) {tr : List ShipOp}
    (hrun : Lts.Run (Lts.Guarded (ShipStep z xlogBuffers) SendsWholePages) (Ship.init b) tr s)
    {env : WalEnv} (henv : env.ring = s.storage.ring) {targetPagePtr reqLen fuel flushed : ℕ}
    {arrivals : List ℕ} {st st' : Reader} {len : ℤ} {page : PageBytes} {flushed' : ℕ}
    {arrivals' : List ℕ} (hread : xLogPageRead env targetPagePtr reqLen fuel flushed arrivals st =
      some (.returned len page st' flushed' arrivals'))
    (hserved : env.ring.lookup targetPagePtr ≠ none) (i : Fin xlogBlcksz) :
    s.lastSent (targetPagePtr + i.val) = some (page i) := by
  have hinit : ShipOk z xlogBuffers (Ship.init b) ∧ RingOk xlogBuffers (Ship.init b) := by
    refine ⟨shipOk_init b, fun j _ q htag => ?_⟩
    have hzero : 0 = q + xlogBlcksz := htag
    exact absurd hzero (by unfold xlogBlcksz; omega)
  have hok := hrun.invariant (I := fun s => ShipOk z xlogBuffers s ∧ RingOk xlogBuffers s) hinit
    fun t a u ht hs => ⟨(hs.2.effect ht.1).ok ht.1, ht.2.step ht.1 hs.1 (hs.2.effect ht.1)⟩
  obtain ⟨bytes, hlookup⟩ := Option.ne_none_iff_exists'.mp hserved
  obtain rfl := returned_of_ring hlookup hread
  rw [henv] at hlookup
  simp only [RpcRing.lookup, hok.1.ring_size] at hlookup
  split_ifs at hlookup with htag
  obtain ⟨_, _, hsent⟩ := hok.2 _ (bufIdx_lt hok.1.pos _) targetPagePtr htag
  rw [hsent i.val i.isLt, ← Option.some.inj hlookup]

end Ring

/-! ### One page, sent once and sent in two parts -/

lemma read_from_ring {ring : RpcRing} {page : PageBytes} (h : ring.lookup 16384 = some page) :
    ∃ len st', xLogPageRead { walOnDisk with ring := ring } 16384 100 1 40000 [] freshReader =
      some (.returned len page st' 40000 []) := by
  have hst : RpcReader freshReader := ⟨rfl, by decide⟩
  have hpage : PageReadable { walOnDisk with ring := ring } 16384 := ⟨page, rfl, Or.inl h⟩
  have hclosed : ¬ SegmentOpen { walOnDisk with ring := ring } 16384 freshReader :=
    fun hopen => Bool.noConfusion hopen.1
  obtain ⟨page', hread⟩ := pageRead_closed hst hclosed hpage
    (show 16384 + 100 < 40000 by decide) 0 []
  obtain rfl := returned_of_ring h hread
  exact ⟨_, _, hread⟩

/-- The page is accepted in full and read back from the ring. -/
theorem ring_page_last_sent_one_page :
    ∃ s page, Lts.Run (ShipStep sixteenMB 8) (Ship.init onePage) (pageSent 8192) s ∧
      s.storage.ring.lookup 16384 = some page ∧
      ∀ i : Fin xlogBlcksz, s.lastSent (16384 + i.val) = some (page i) := by
  have hex : ∃ s page, Lts.Run (Lts.Guarded (ShipStep sixteenMB 8)
        SendsWholePages) (Ship.init onePage) (pageSent 8192) s ∧
      s.storage.ring.lookup 16384 = some page := by
    refine ⟨_, _, .cons ⟨trivial, trivial, rfl⟩ (.cons ⟨trivial, trivial, rfl⟩
      (.cons ⟨?_, ?_, rfl⟩ .nil)), RpcRing.lookup_of_tag (by decide)⟩
    · intro g d hp
      cases hp
      decide
    · intro g d hp
      cases hp
      decide
  obtain ⟨s, page, hrun, hlookup⟩ := hex
  obtain ⟨len, st', hread⟩ := read_from_ring hlookup
  refine ⟨s, page, hrun.of_guarded, hlookup, ring_page_last_sent onePage hrun rfl hread ?_⟩
  change s.storage.ring.lookup 16384 ≠ none
  simp [hlookup]

/-- `pg_pwrite` accepts 100 bytes, and the other 8092 are sent again for the same slot.  The first
byte that is read is then the one sent for position 16484. -/
theorem ring_page_shifted :
    ∃ s len page st', Lts.Run (ShipStep sixteenMB 8) (Ship.init onePage)
        (pageSent 100 ++ [.rpc 8092 false fun _ => 0]) s ∧
      xLogPageRead { walOnDisk with ring := s.storage.ring } 16384 100 1 40000 [] freshReader =
        some (.returned len page st' 40000 []) ∧
      s.storage.ring.lookup 16384 = some page ∧
      page ⟨0, by decide⟩ = 100 ∧ s.lastSent 16384 = some 0 := by
  have hex : ∃ s page, Lts.Run (ShipStep sixteenMB 8) (Ship.init onePage)
        (pageSent 100 ++ [.rpc 8092 false fun _ => 0]) s ∧
      s.storage.ring.lookup 16384 = some page ∧
      page ⟨0, by decide⟩ = 100 ∧ s.lastSent 16384 = some 0 := by
    refine ⟨_, _, .cons ⟨trivial, rfl⟩ (.cons ⟨trivial, rfl⟩ (.cons ⟨?_, rfl⟩
      (.cons ⟨?_, rfl⟩ .nil))), RpcRing.lookup_of_tag (by decide), by decide,
      by decide⟩
    · intro g d hp
      cases hp
      decide
    · intro g d hp
      cases hp
      decide
  obtain ⟨s, page, hrun, hlookup, hfirst, hsent⟩ := hex
  obtain ⟨len, st', hread⟩ := read_from_ring hlookup
  exact ⟨s, len, page, st', hrun, hread, hlookup, hfirst, hsent⟩

end GroundDB
