import GroundDB.Wal.XLogWrite

/-!
# The groups of pages `XLogWrite` writes

`XLogWrite` gathers pages of the WAL buffers and writes them in groups.  The storage node indexes
its ring with `startidx + i` for the pages of a group, without reducing it modulo the size of the
ring: it relies on the groups ending at the end of the ring, and on their being within one segment.

The loop is followed here from its first to its last iteration, for any segment size.
`XLogSegmentOffset` is a mask, which is the offset in the segment only for powers of two; for these
the groups are as the storage node needs them, and they cover what was to be written once and in
order (`write_groups_fit`).  With other segment sizes a group may run into the next segment.
-/

namespace GroundDB

/-! ## The loop -/

/-- `XLogSegmentOffset`. -/
def xlogSegmentOffset (p segSize : ℕ) : ℕ := p &&& (segSize - 1)

/-- What a remote write is given: the file of the open segment, where in it the pages go, the slot
of the first page and the number of pages. -/
structure WriteGroup where
  openLogSegNo : ℕ
  startoffset : ℕ
  startidx : ℕ
  npages : ℕ
deriving DecidableEq, Repr

/-- The numbers of the pages that the slots of a group hold. -/
def WriteGroup.pageNumbers (xlblocks : ℕ → ℕ) (group : WriteGroup) : List ℕ :=
  (List.range group.npages).map fun i => xlblocks (group.startidx + i) / xlogBlcksz - 1

section Loop

variable (segSize xlogBuffers : ℕ)

/-- `addPage` with the offsets that the macro computes. -/
def Gather.join (g : Gather) (endPtr : ℕ) : Gather :=
  g.addPage (xlogSegmentOffset · segSize) endPtr

/-- The group that is dumped.  The open segment is that of the last page gathered. -/
def Gather.group (g : Gather) : WriteGroup where
  openLogSegNo := (g.write - 1) / segSize
  startoffset := g.startoffset
  startidx := g.startidx
  npages := g.npages

/-- The loop of `XLogWrite`, over buffers that hold pages with the ends `xlblocks`: the groups that
are written and the last value of `LogwrtResult.Write`.  `none` is the panic about a request past
the end of the log. -/
def writeGroups (xlblocks : ℕ → ℕ) : ℕ → Gather → Option (List WriteGroup × ℕ)
  | 0, g => if g.write < g.writeRqst then none else some ([], g.write)
  | fuel + 1, g =>
      if g.write < g.writeRqst then
        let endPtr := xlblocks g.curridx
        if endPtr ≤ g.write then none
        else
          let g := g.join segSize endPtr
          let dumped := if g.mustDump xlogBuffers segSize then [g.group segSize] else []
          let npages := if g.mustDump xlogBuffers segSize then 0 else g.npages
          if g.writeRqst < g.write then some (dumped, g.writeRqst)
          else if g.flexible && npages == 0 then some (dumped, g.write)
          else do
            let rest ← writeGroups xlblocks fuel
              { g with npages := npages, curridx := nextBufIdx xlogBuffers g.curridx }
            some (dumped ++ rest.1, rest.2)
      else some ([], g.write)

/-- `XLogWrite` with `LogwrtResult.Write = write`.  An iteration advances it, so there are at most
as many as bytes to write. -/
def xLogWriteGroups (xlblocks : ℕ → ℕ) (write writeRqst : ℕ) (flexible : Bool) :
    Option (List WriteGroup × ℕ) :=
  writeGroups segSize xlogBuffers xlblocks (writeRqst - write)
    { writeRqst := writeRqst
      flexible := flexible
      write := write
      curridx := bufIdx xlogBuffers write
      npages := 0
      startidx := 0
      startoffset := 0 }

end Loop

/-! ## Segment sizes that are powers of two -/

lemma xlogSegmentOffset_two_pow (p k : ℕ) : xlogSegmentOffset p (2 ^ k) = p % 2 ^ k :=
  Nat.and_two_pow_sub_one_eq_mod p k

lemma xlogSegmentOffset_page {segSize m : ℕ} (hpow : ∃ k, segSize = 2 ^ k)
    (hseg : segSize = xlogBlcksz * m) (q : ℕ) :
    xlogSegmentOffset (q * xlogBlcksz) segSize = q % m * xlogBlcksz := by
  obtain ⟨k, hk⟩ := hpow
  rw [hk, xlogSegmentOffset_two_pow, ← hk, hseg, Nat.mul_comm q, Nat.mul_mod_mul_left,
    Nat.mul_comm]

lemma page_segment {segSize m q i n : ℕ} (hseg : segSize = xlogBlcksz * m)
    (hfit : q % m + n ≤ m) (hi : i < n) :
    (q + i) * xlogBlcksz / segSize = q / m ∧ ((q + i + 1) * xlogBlcksz - 1) / segSize = q / m := by
  have hpage : (q + i) / m = q / m := by
    have hq := Nat.div_add_mod q m
    have hrw : q + i = q % m + i + m * (q / m) := by omega
    rw [hrw, Nat.add_mul_div_left _ _ (by omega), Nat.div_eq_of_lt (by omega), Nat.zero_add]
  have hlast : (q + i + 1) * xlogBlcksz - 1 = xlogBlcksz * (q + i) + (xlogBlcksz - 1) := by
    unfold xlogBlcksz
    omega
  constructor
  · rw [hseg, Nat.mul_comm, Nat.mul_div_mul_left _ _ (by decide), hpage]
  · have hzero : (xlogBlcksz - 1) / xlogBlcksz = 0 := rfl
    rw [hlast, hseg, ← Nat.div_div_eq_div_mul, Nat.mul_add_div (by decide), hzero, Nat.add_zero,
      hpage]

/-! ## The groups -/

/-- The slots hold the pages from the one `write` is on up to `writeRqst`. -/
def PagesHeld (xlogBuffers : ℕ) (xlblocks : ℕ → ℕ) (write writeRqst : ℕ) : Prop :=
  ∀ q, write < (q + 1) * xlogBlcksz → q * xlogBlcksz < writeRqst →
    xlblocks (bufIdx xlogBuffers (q * xlogBlcksz)) = (q + 1) * xlogBlcksz

/-- A group as the storage node needs it: it does not pass the end of the ring, its slots hold
consecutive pages from number `q` on, all of them in the open segment, and it is written where the
first of them belongs. -/
structure WriteGroup.Fits (segSize xlogBuffers : ℕ) (xlblocks : ℕ → ℕ) (group : WriteGroup)
    (q : ℕ) : Prop where
  npages_pos : 0 < group.npages
  in_ring : group.startidx + group.npages ≤ xlogBuffers
  slots : ∀ i < group.npages, xlblocks (group.startidx + i) = (q + i + 1) * xlogBlcksz
  segment : ∀ i < group.npages, (q + i) * xlogBlcksz / segSize = group.openLogSegNo ∧
    ((q + i + 1) * xlogBlcksz - 1) / segSize = group.openLogSegNo
  offset : group.startoffset = q * xlogBlcksz % segSize

lemma WriteGroup.Fits.pageNumbers {segSize xlogBuffers q : ℕ} {xlblocks : ℕ → ℕ}
    {group : WriteGroup} (h : group.Fits segSize xlogBuffers xlblocks q) :
    group.pageNumbers xlblocks = List.range' q group.npages := by
  rw [WriteGroup.pageNumbers, List.range'_eq_map_range]
  refine List.map_congr_left fun i hi => ?_
  rw [h.slots i (List.mem_range.mp hi), Nat.mul_div_cancel _ (by decide)]
  rfl

/-- The number of pages from the one `write` is on up to `writeRqst`. -/
def pagesToWrite (write writeRqst : ℕ) : ℕ :=
  if write < writeRqst then (writeRqst + xlogBlcksz - 1) / xlogBlcksz - write / xlogBlcksz else 0

section Groups

variable {segSize xlogBuffers m first writeRqst : ℕ} {xlblocks : ℕ → ℕ}

/-- The head of the loop, when the pages before number `j` are written and those from `j` on up to
number `k` are gathered. -/
structure LoopHead (xlogBuffers m first : ℕ) (g : Gather) (j k : ℕ) : Prop where
  first_le : first ≤ j
  count : k = j + g.npages
  page : g.write / xlogBlcksz = k
  curridx : g.curridx = k % xlogBuffers
  more : g.write < g.writeRqst ∨ g.write = g.writeRqst ∧ g.write = k * xlogBlcksz
  pending : g.npages ≠ 0 → g.write < g.writeRqst ∧ g.startidx = j % xlogBuffers ∧
    j % xlogBuffers + g.npages < xlogBuffers ∧ g.startoffset = j % m * xlogBlcksz ∧
    j % m + g.npages < m

/-- **One iteration** gathers the page at `write`: the pages from `j` on, with this one, make a
group that fits. -/
lemma LoopHead.join {g : Gather} {j k : ℕ} (h : LoopHead xlogBuffers m first g j k)
    (hn : 0 < xlogBuffers) (hm : 0 < m) (hpow : ∃ e, segSize = 2 ^ e)
    (hseg : segSize = xlogBlcksz * m) (hheld : ∀ q, first ≤ q → q * xlogBlcksz < g.writeRqst →
      xlblocks (q % xlogBuffers) = (q + 1) * xlogBlcksz)
    (hlt : g.write < g.writeRqst) :
    xlblocks g.curridx = (k + 1) * xlogBlcksz ∧ g.write < (k + 1) * xlogBlcksz ∧
    (g.join segSize ((k + 1) * xlogBlcksz)).startidx = j % xlogBuffers ∧
    (g.join segSize ((k + 1) * xlogBlcksz)).startoffset = j % m * xlogBlcksz ∧
    ((g.join segSize ((k + 1) * xlogBlcksz)).group segSize).Fits segSize xlogBuffers xlblocks
      j := by
  obtain ⟨hfirst, hcount, hpage, hcur, -, hpending⟩ := h
  have hwrite : k * xlogBlcksz ≤ g.write ∧ g.write < (k + 1) * xlogBlcksz := by
    unfold xlogBlcksz at hpage ⊢
    omega
  have hstart : (g.join segSize ((k + 1) * xlogBlcksz)).startidx = j % xlogBuffers := by
    by_cases hzero : g.npages = 0
    · simp [Gather.join, Gather.addPage, hzero, hcur, hcount]
    · simp [Gather.join, Gather.addPage, hzero, (hpending hzero).2.1]
  have hring : j % xlogBuffers + (g.npages + 1) ≤ xlogBuffers := by
    by_cases hzero : g.npages = 0
    · have := Nat.mod_lt j hn
      omega
    · have := (hpending hzero).2.2.1
      omega
  have hoffset : (g.join segSize ((k + 1) * xlogBlcksz)).startoffset = j % m * xlogBlcksz := by
    by_cases hzero : g.npages = 0
    · have hprev : (k + 1) * xlogBlcksz - xlogBlcksz = k * xlogBlcksz := by
        rw [Nat.add_mul, Nat.one_mul, Nat.add_sub_cancel]
      obtain rfl : k = j := by omega
      simp only [Gather.join, Gather.addPage, hzero, if_true, hprev]
      exact xlogSegmentOffset_page hpow hseg k
    · simp [Gather.join, Gather.addPage, hzero, (hpending hzero).2.2.2.1]
  have hinseg : j % m + (g.npages + 1) ≤ m := by
    by_cases hzero : g.npages = 0
    · have := Nat.mod_lt j hm
      omega
    · have := (hpending hzero).2.2.2.2
      omega
  refine ⟨hcur ▸ hheld k (by omega) (by omega), hwrite.2, hstart, hoffset,
    Nat.succ_pos _, ?_, ?_, ?_, ?_⟩
  · change (g.join segSize ((k + 1) * xlogBlcksz)).startidx + (g.npages + 1) ≤ xlogBuffers
    rwa [hstart]
  · intro i hi
    have hi : i < g.npages + 1 := hi
    change xlblocks ((g.join segSize ((k + 1) * xlogBlcksz)).startidx + i) = _
    have hslot : (j + i) % xlogBuffers = j % xlogBuffers + i := by
      rw [Nat.add_mod, Nat.mod_eq_of_lt (show i < xlogBuffers by omega),
        Nat.mod_eq_of_lt (by omega)]
    have hle : (j + i) * xlogBlcksz ≤ k * xlogBlcksz := Nat.mul_le_mul_right _ (by omega)
    rw [hstart, ← hslot]
    exact hheld (j + i) (by omega) (by omega)
  · intro i hi
    have hopen : ((k + 1) * xlogBlcksz - 1) / segSize = j / m := by
      rw [hcount]
      exact (page_segment hseg hinseg (Nat.lt_succ_self _)).2
    change _ = ((k + 1) * xlogBlcksz - 1) / segSize ∧ _ = ((k + 1) * xlogBlcksz - 1) / segSize
    rw [hopen]
    exact page_segment hseg hinseg hi
  · change (g.join segSize ((k + 1) * xlogBlcksz)).startoffset = _
    rw [hoffset, hseg, Nat.mul_comm j, Nat.mul_mod_mul_left, Nat.mul_comm]

lemma nextBufIdx_mod (hn : 0 < xlogBuffers) (k : ℕ) :
    nextBufIdx xlogBuffers (k % xlogBuffers) = (k + 1) % xlogBuffers := by
  have hlt := Nat.mod_lt k hn
  rw [nextBufIdx, Nat.add_mod]
  split_ifs with hlast
  · rcases Nat.lt_or_ge 1 xlogBuffers with hone | hone
    · rw [Nat.mod_eq_of_lt hone, hlast, Nat.sub_add_cancel hn, Nat.mod_self]
    · obtain rfl : xlogBuffers = 1 := by omega
      simp [Nat.mod_one]
  · rw [Nat.mod_eq_of_lt (show 1 < xlogBuffers by omega),
      Nat.mod_eq_of_lt (show k % xlogBuffers + 1 < xlogBuffers by omega)]

/-- The head of the loop behind a group that was dumped. -/
lemma LoopHead.afterDump {g : Gather} {j k : ℕ} (h : LoopHead xlogBuffers m first g j k)
    (hn : 0 < xlogBuffers) (hle : (k + 1) * xlogBlcksz ≤ g.writeRqst) :
    LoopHead xlogBuffers m first
      { g.join segSize ((k + 1) * xlogBlcksz) with
        npages := 0, curridx := nextBufIdx xlogBuffers g.curridx } (k + 1) (k + 1) where
  first_le := by
    have := h.first_le
    have := h.count
    omega
  count := rfl
  page := Nat.mul_div_cancel _ (by decide)
  curridx := by
    rw [h.curridx]
    exact nextBufIdx_mod hn k
  more := (Nat.lt_or_eq_of_le hle).imp id fun heq => ⟨heq, rfl⟩
  pending hne := absurd rfl hne

/-- The head of the loop behind a page that was only gathered. -/
lemma LoopHead.gathered {g : Gather} {j k : ℕ} (h : LoopHead xlogBuffers m first g j k)
    (hn : 0 < xlogBuffers) (hseg : segSize = xlogBlcksz * m)
    (hstart : (g.join segSize ((k + 1) * xlogBlcksz)).startidx = j % xlogBuffers)
    (hoffset : (g.join segSize ((k + 1) * xlogBlcksz)).startoffset = j % m * xlogBlcksz)
    (hring : j % xlogBuffers + (g.npages + 1) ≤ xlogBuffers)
    (hdump : (g.join segSize ((k + 1) * xlogBlcksz)).mustDump xlogBuffers segSize = false) :
    LoopHead xlogBuffers m first
      { g.join segSize ((k + 1) * xlogBlcksz) with
        curridx := nextBufIdx xlogBuffers g.curridx } j (k + 1) := by
  obtain ⟨hmore, hidx, hroom⟩ := Gather.not_mustDump hdump
  have hcount := h.count
  -- the slot looked at is the one of the last page gathered
  have hslot : k % xlogBuffers = j % xlogBuffers + g.npages := by
    rw [hcount, Nat.add_mod, Nat.mod_eq_of_lt (show g.npages < xlogBuffers by omega),
      Nat.mod_eq_of_lt (by omega)]
  have hidx : j % xlogBuffers + g.npages ≠ xlogBuffers - 1 := by
    rw [← hslot, ← h.curridx]
    exact hidx
  have hroom : j % m + (g.npages + 1) < m := by
    rw [hoffset, hseg, Nat.mul_comm xlogBlcksz, ← Nat.add_mul] at hroom
    exact Nat.lt_of_mul_lt_mul_right hroom
  refine ⟨h.first_le, ?_, Nat.mul_div_cancel _ (by decide), ?_, .inl hmore,
    fun _ => ⟨hmore, hstart, ?_, hoffset, hroom⟩⟩
  · change k + 1 = j + (g.npages + 1)
    omega
  · rw [h.curridx]
    exact nextBufIdx_mod hn k
  · change j % xlogBuffers + (g.npages + 1) < xlogBuffers
    omega

lemma LoopHead.finished {g : Gather} {j k : ℕ} (h : LoopHead xlogBuffers m first g j k)
    (hlt : ¬g.write < g.writeRqst) : g.write = g.writeRqst ∧ g.write = j * xlogBlcksz := by
  obtain ⟨heq, hpos⟩ := h.more.resolve_left hlt
  have hzero : g.npages = 0 := not_not.mp fun hne => hlt (h.pending hne).1
  rw [h.count, hzero, Nat.add_zero] at hpos
  exact ⟨heq, hpos⟩

/-- The groups fit and hold the `n` pages from number `j` on, in order, none of which lies behind
the request; `final` is where the writing ends, which is the request unless `flexible`. -/
structure Written (segSize xlogBuffers : ℕ) (xlblocks : ℕ → ℕ) (writeRqst : ℕ) (flexible : Bool)
    (j n : ℕ) (groups : List WriteGroup) (final : ℕ) : Prop where
  fits : ∀ group ∈ groups, ∃ q, group.Fits segSize xlogBuffers xlblocks q
  pages : groups.flatMap (WriteGroup.pageNumbers xlblocks) = List.range' j n
  needed : ∀ q, j ≤ q → q < j + n → q * xlogBlcksz < writeRqst
  final_eq : final = min ((j + n) * xlogBlcksz) writeRqst
  all : flexible = false → writeRqst ≤ (j + n) * xlogBlcksz

variable {flexible : Bool} {j k n final : ℕ} {g : Gather} {group : WriteGroup}
  {groups : List WriteGroup}

lemma Written.cons (hfits : group.Fits segSize xlogBuffers xlblocks j)
    (hneeded : ∀ q, q < j + group.npages → q * xlogBlcksz < writeRqst)
    (h : Written segSize xlogBuffers xlblocks writeRqst flexible (j + group.npages) n groups
      final) :
    Written segSize xlogBuffers xlblocks writeRqst flexible j (group.npages + n) (group :: groups)
      final where
  fits := List.forall_mem_cons.mpr ⟨⟨j, hfits⟩, h.fits⟩
  pages := by
    rw [List.flatMap_cons, hfits.pageNumbers, h.pages, List.range'_append_1]
  needed q hq hlt := by
    rcases Nat.lt_or_ge q (j + group.npages) with hin | hbehind
    · exact hneeded q hin
    · exact h.needed q hbehind (by omega)
  final_eq := by
    rw [h.final_eq, Nat.add_assoc]
  all hflex := by
    rw [← Nat.add_assoc]
    exact h.all hflex

lemma Written.nil (hfinal : final = min (j * xlogBlcksz) writeRqst)
    (hall : flexible = false → writeRqst ≤ j * xlogBlcksz) :
    Written segSize xlogBuffers xlblocks writeRqst flexible j 0 [] final :=
  ⟨by simp, rfl, fun q hle hlt => by omega, by rwa [Nat.add_zero], by rwa [Nat.add_zero]⟩

section Iteration

variable {fuel endPtr : ℕ} (hlt : g.write < g.writeRqst) (hend : xlblocks g.curridx = endPtr)
  (hadv : g.write < endPtr)
include hlt hend hadv

lemma writeGroups_partial (hdump : (g.join segSize endPtr).mustDump xlogBuffers segSize = true)
    (hpart : g.writeRqst < endPtr) :
    writeGroups segSize xlogBuffers xlblocks (fuel + 1) g =
      some ([(g.join segSize endPtr).group segSize], g.writeRqst) := by
  have hpart' : (g.join segSize endPtr).writeRqst < (g.join segSize endPtr).write := hpart
  simp only [writeGroups, if_pos hlt, hend, if_neg (not_le.mpr hadv), hdump, if_true,
    if_pos hpart']
  rfl

lemma writeGroups_flexible (hdump : (g.join segSize endPtr).mustDump xlogBuffers segSize = true)
    (hpart : endPtr ≤ g.writeRqst) (hflex : g.flexible = true) :
    writeGroups segSize xlogBuffers xlblocks (fuel + 1) g =
      some ([(g.join segSize endPtr).group segSize], endPtr) := by
  have hpart' : ¬(g.join segSize endPtr).writeRqst < (g.join segSize endPtr).write :=
    not_lt.mpr hpart
  have hflex' : (g.join segSize endPtr).flexible = true := hflex
  simp only [writeGroups, if_pos hlt, hend, if_neg (not_le.mpr hadv), hdump, if_true,
    if_neg hpart', hflex', Bool.true_and, beq_self_eq_true]
  rfl

lemma writeGroups_next (hdump : (g.join segSize endPtr).mustDump xlogBuffers segSize = true)
    (hpart : endPtr ≤ g.writeRqst) (hflex : g.flexible = false)
    (hrest : writeGroups segSize xlogBuffers xlblocks fuel
      { g.join segSize endPtr with
        npages := 0, curridx := nextBufIdx xlogBuffers g.curridx } = some (groups, final)) :
    writeGroups segSize xlogBuffers xlblocks (fuel + 1) g =
      some ((g.join segSize endPtr).group segSize :: groups, final) := by
  have hpart' : ¬(g.join segSize endPtr).writeRqst < (g.join segSize endPtr).write :=
    not_lt.mpr hpart
  have hgoOn : ((g.join segSize endPtr).flexible && (0 : ℕ) == 0) = false := by
    rw [Bool.and_eq_false_iff]
    exact .inl hflex
  have hcur : (g.join segSize endPtr).curridx = g.curridx := rfl
  simp only [writeGroups, if_pos hlt, hend, if_neg (not_le.mpr hadv), hdump, if_true,
    if_neg hpart', hgoOn, Bool.false_eq_true, if_false, hcur, hrest, Option.bind_eq_bind,
    Option.bind_some]
  rfl

lemma writeGroups_gather (hdump : (g.join segSize endPtr).mustDump xlogBuffers segSize = false)
    (hpart : endPtr ≤ g.writeRqst) :
    writeGroups segSize xlogBuffers xlblocks (fuel + 1) g =
      writeGroups segSize xlogBuffers xlblocks fuel
        { g.join segSize endPtr with curridx := nextBufIdx xlogBuffers g.curridx } := by
  have hpart' : ¬(g.join segSize endPtr).writeRqst < (g.join segSize endPtr).write :=
    not_lt.mpr hpart
  have hpages : ((g.join segSize endPtr).npages == 0) = false := rfl
  have hcur : (g.join segSize endPtr).curridx = g.curridx := rfl
  simp only [writeGroups, if_pos hlt, hend, if_neg (not_le.mpr hadv), hdump, Bool.false_eq_true,
    if_false, if_neg hpart', hpages, Bool.and_false, hcur]
  cases writeGroups segSize xlogBuffers xlblocks fuel
    { g.join segSize endPtr with curridx := nextBufIdx xlogBuffers g.curridx } <;> rfl

end Iteration

/-- **The loop**, from any of its heads. -/
lemma writeGroups_spec {fuel : ℕ} (h : LoopHead xlogBuffers m first g j k)
    (hn : 0 < xlogBuffers) (hm : 0 < m) (hpow : ∃ e, segSize = 2 ^ e)
    (hseg : segSize = xlogBlcksz * m) (hheld : ∀ q, first ≤ q → q * xlogBlcksz < g.writeRqst →
      xlblocks (q % xlogBuffers) = (q + 1) * xlogBlcksz)
    (hfuel : g.writeRqst - g.write ≤ fuel) :
    ∃ groups final n, writeGroups segSize xlogBuffers xlblocks fuel g = some (groups, final) ∧
      Written segSize xlogBuffers xlblocks g.writeRqst g.flexible j n groups final := by
  induction fuel generalizing g j k with
  | zero =>
      have hlt : ¬g.write < g.writeRqst := by omega
      obtain ⟨heq, hpos⟩ := h.finished hlt
      refine ⟨[], g.write, 0, by rw [writeGroups, if_neg hlt], .nil ?_ fun _ => by omega⟩
      rw [← hpos, heq, min_self]
  | succ fuel ih =>
      by_cases hlt : g.write < g.writeRqst
      · obtain ⟨hend, hadv, hstart, hoffset, hfits⟩ := h.join hn hm hpow hseg hheld hlt
        have hfuel' : g.writeRqst - (k + 1) * xlogBlcksz ≤ fuel := by omega
        cases hdump : (g.join segSize ((k + 1) * xlogBlcksz)).mustDump xlogBuffers segSize with
        | false =>
            obtain ⟨hmore, -, -⟩ := Gather.not_mustDump hdump
            have hring := hfits.in_ring
            obtain ⟨rest, final, n, hrun, hwritten⟩ :=
              ih (h.gathered hn hseg hstart hoffset (hstart ▸ hring) hdump) hheld hfuel'
            refine ⟨rest, final, n, ?_, hwritten⟩
            rw [writeGroups_gather hlt hend hadv hdump (Nat.le_of_lt hmore), hrun]
        | true =>
            have hnext : j + (g.npages + 1) = k + 1 := by
              have := h.count
              omega
            have hneeded : ∀ q, q < j + (g.npages + 1) → q * xlogBlcksz < g.writeRqst := by
              intro q hq
              have hpage := h.page
              have hle : q * xlogBlcksz ≤ k * xlogBlcksz := Nat.mul_le_mul_right _ (by omega)
              unfold xlogBlcksz at hpage hle ⊢
              omega
            -- the group reaches up to page `k`, and something follows it or not
            have hgroup {n final : ℕ} {groups : List WriteGroup}
                (hrest : Written segSize xlogBuffers xlblocks g.writeRqst g.flexible (k + 1) n
                  groups final) :
                Written segSize xlogBuffers xlblocks g.writeRqst g.flexible j (g.npages + 1 + n)
                  ((g.join segSize ((k + 1) * xlogBlcksz)).group segSize :: groups) final :=
              .cons hfits hneeded (hnext ▸ hrest)
            rcases Nat.lt_or_ge g.writeRqst ((k + 1) * xlogBlcksz) with hpart | hpart
            · refine ⟨_, _, _, writeGroups_partial hlt hend hadv hdump hpart,
                hgroup (.nil ?_ fun _ => Nat.le_of_lt hpart)⟩
              rw [min_eq_right (Nat.le_of_lt hpart)]
            cases hflex : g.flexible with
            | true =>
                refine ⟨_, _, _, writeGroups_flexible hlt hend hadv hdump hpart hflex,
                  hflex ▸ hgroup (.nil ?_ fun hno => ?_)⟩
                · rw [min_eq_left hpart]
                · rw [hflex] at hno
                  cases hno
            | false =>
                obtain ⟨rest, final, n, hrun, hwritten⟩ := ih (h.afterDump hn hpart) hheld hfuel'
                exact ⟨_, _, _, writeGroups_next hlt hend hadv hdump hpart hflex hrun,
                  hflex ▸ hgroup hwritten⟩
      · obtain ⟨heq, hpos⟩ := h.finished hlt
        refine ⟨[], g.write, 0, by rw [writeGroups, if_neg hlt], .nil ?_ fun _ => by omega⟩
        rw [← hpos, heq, min_self]

/-- **The groups fit the ring.**  For every number of buffers, every segment size that is a power of
two and a multiple of the page size, and buffers that hold the pages to be written, `XLogWrite` does
not panic, and every group it writes is as the storage node needs it.  Together the groups hold the
pages from the one `write` is on up to the request, each once and in order; with `flexible` it may
stop before. -/
theorem write_groups_fit {write : ℕ} (hn : 0 < xlogBuffers) (hpow : ∃ e, segSize = 2 ^ e)
    (hdvd : xlogBlcksz ∣ segSize) (hheld : PagesHeld xlogBuffers xlblocks write writeRqst)
    (flexible : Bool) :
    ∃ groups final,
      xLogWriteGroups segSize xlogBuffers xlblocks write writeRqst flexible
        = some (groups, final) ∧
      (∀ group ∈ groups, ∃ q, group.Fits segSize xlogBuffers xlblocks q) ∧
      (∃ n ≤ pagesToWrite write writeRqst,
        groups.flatMap (WriteGroup.pageNumbers xlblocks) = List.range' (write / xlogBlcksz) n ∧
        (flexible = false → n = pagesToWrite write writeRqst)) ∧
      (flexible = false → final = max write writeRqst) := by
  by_cases hlt : write < writeRqst
  · obtain ⟨m, hseg⟩ := hdvd
    have hm : 0 < m := by
      obtain ⟨e, he⟩ := hpow
      refine Nat.pos_of_ne_zero fun hzero => ?_
      have hpos := Nat.two_pow_pos e
      rw [← he, hseg, hzero, Nat.mul_zero] at hpos
      exact absurd hpos (lt_irrefl 0)
    have hslots : ∀ q, write / xlogBlcksz ≤ q → q * xlogBlcksz < writeRqst →
        xlblocks (q % xlogBuffers) = (q + 1) * xlogBlcksz := by
      intro q hq hlt
      have hslot : bufIdx xlogBuffers (q * xlogBlcksz) = q % xlogBuffers := by
        rw [bufIdx, Nat.mul_div_cancel _ (by decide)]
      rw [← hslot]
      refine hheld q ?_ hlt
      unfold xlogBlcksz at hq ⊢
      omega
    set g : Gather := ⟨writeRqst, flexible, write, bufIdx xlogBuffers write, 0, 0, 0⟩ with hg
    have hhead : LoopHead xlogBuffers m (write / xlogBlcksz) g (write / xlogBlcksz)
        (write / xlogBlcksz) :=
      ⟨le_rfl, rfl, rfl, rfl, .inl hlt, fun hne => absurd rfl hne⟩
    obtain ⟨groups, final, n, hrun, hwritten⟩ :=
      writeGroups_spec hhead hn hm hpow hseg hslots le_rfl
    have hle : n ≤ pagesToWrite write writeRqst := by
      rcases Nat.eq_zero_or_pos n with rfl | hpos
      · exact Nat.zero_le _
      · have hlast := hwritten.needed (write / xlogBlcksz + (n - 1)) (Nat.le_add_right _ _)
          (by omega)
        rw [pagesToWrite, if_pos hlt]
        change _ < writeRqst at hlast
        unfold xlogBlcksz at hlast ⊢
        omega
    refine ⟨groups, final, hrun, hwritten.fits, ⟨n, hle, hwritten.pages, fun hflex => ?_⟩,
      fun hflex => ?_⟩
    · have hall := hwritten.all hflex
      refine le_antisymm hle ?_
      rw [pagesToWrite, if_pos hlt]
      change writeRqst ≤ _ at hall
      unfold xlogBlcksz at hall ⊢
      omega
    · rw [hwritten.final_eq, min_eq_right (hwritten.all hflex), max_eq_right (Nat.le_of_lt hlt)]
  · refine ⟨[], write, ?_, by simp, ⟨0, Nat.zero_le _, rfl, fun _ => ?_⟩, fun _ => ?_⟩
    · rw [xLogWriteGroups, Nat.sub_eq_zero_of_le (not_lt.mp hlt), writeGroups, if_neg hlt]
    · rw [pagesToWrite, if_neg hlt]
    · rw [max_eq_left (not_lt.mp hlt)]

end Groups

/-! ### Two calls -/

/-- The slots of a ring of four: page 4 has replaced page 0. -/
def turnedRing (i : ℕ) : ℕ := if i = 0 then 5 * xlogBlcksz else (i + 1) * xlogBlcksz

lemma pagesHeld_turnedRing : PagesHeld 4 turnedRing 24676 40960 := by
  intro q hq hlt
  unfold xlogBlcksz at hq hlt
  obtain rfl | rfl : q = 3 ∨ q = 4 := by omega
  all_goals rfl

/-- Two pages around the end of the ring are written in two groups. -/
theorem write_groups_around_end :
    ∃ groups final, xLogWriteGroups (2 ^ 24) 4 turnedRing 24676 40960 false
        = some (groups, final) ∧
      (∀ group ∈ groups, ∃ q, group.Fits (2 ^ 24) 4 turnedRing q) ∧
      groups.flatMap (WriteGroup.pageNumbers turnedRing) = [3, 4] ∧ final = 40960 := by
  obtain ⟨groups, final, hrun, hfits, ⟨n, -, hpages, hn⟩, hfinal⟩ :=
    write_groups_fit (by decide) ⟨24, rfl⟩ ⟨2 ^ 11, rfl⟩ pagesHeld_turnedRing false
  rw [hn rfl] at hpages
  exact ⟨groups, final, hrun, hfits, hpages, hfinal rfl⟩

/-- **Other segment sizes, and flexible calls.**  With segments of three pages, the offset of page 1
comes out as 0, and pages 1, 2 and 3 are written as one group although page 3 is in the next
segment. A flexible call stops at the end of the ring and leaves page 4 for later. -/
theorem write_group_crosses_segment :
    (xlogBlcksz ∣ 3 * xlogBlcksz ∧ PagesHeld 8 (fun i => (i + 1) * xlogBlcksz) 8192 32768 ∧
      xLogWriteGroups (3 * xlogBlcksz) 8 (fun i => (i + 1) * xlogBlcksz) 8192 32768 false
        = some ([⟨1, 0, 1, 3⟩], 32768) ∧
      ¬∃ q, WriteGroup.Fits (3 * xlogBlcksz) 8 (fun i => (i + 1) * xlogBlcksz) ⟨1, 0, 1, 3⟩ q) ∧
    PagesHeld 4 turnedRing 24676 40960 ∧
    xLogWriteGroups (2 ^ 24) 4 turnedRing 24676 40960 true = some ([⟨0, 24576, 3, 1⟩], 32768) ∧
    pagesToWrite 24676 40960 = 2 := by
  refine ⟨⟨⟨3, rfl⟩, ?_, by decide, ?_⟩, pagesHeld_turnedRing, by decide, rfl⟩
  · intro q hq hlt
    unfold xlogBlcksz at hq hlt
    obtain rfl | rfl | rfl : q = 1 ∨ q = 2 ∨ q = 3 := by omega
    all_goals rfl
  · rintro ⟨q, h⟩
    have hslot : (1 + 0 + 1) * xlogBlcksz = (q + 0 + 1) * xlogBlcksz := h.slots 0 (by decide)
    obtain rfl : q = 1 := by
      unfold xlogBlcksz at hslot
      omega
    exact absurd (h.segment 0 (by decide)).1 (by decide)

end GroundDB
