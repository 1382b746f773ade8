import GroundDB.Worker.Messages

/-!
# Deltas of generic records

A generic record describes what happened to a page by fragments of bytes that have changed.
`computeRegionDelta` looks for them in one pass, in which it merges fragments with at most
`MATCH_THRESHOLD` equal bytes between them, since a header would cost as much.  Bytes outside the
valid parts of the old page count as changed.  The hole between `pd_lower` and `pd_upper` is not
described at all: it is zeroed when the record is written and when it is replayed.

`Settled` says what the fragments written so far achieve: up to some offset every byte is the same
on both pages or inside a fragment, and the fragments with their headers take no more room than the
bytes up to there.  Every turn of the loop keeps it.  So replay gives the page that the writer left
(`generic_delta_replays`), and the buffer for the delta is large enough (`generic_delta_fits`).
-/

namespace GroundDB

/-- The bytes of a page, by offset. -/
abbrev RawPage := ℕ → UInt8

/-- A 16-bit field. -/
def fieldBytes (n : ℕ) : List UInt8 := [UInt8.ofNat n, UInt8.ofNat (n / 256)]

/-- The value of a 16-bit field. -/
def fieldOf (a b : UInt8) : ℕ := a.toNat + 256 * b.toNat

/-- `((PageHeader) page)->pd_lower`. -/
def pdLower (page : RawPage) : ℕ := fieldOf (page 12) (page 13)

/-- `((PageHeader) page)->pd_upper`. -/
def pdUpper (page : RawPage) : ℕ := fieldOf (page 14) (page 15)

/-- `FRAGMENT_HEADER_SIZE`. -/
def fragmentHeaderSize : ℕ := 4

/-- `MATCH_THRESHOLD`. -/
def matchThreshold : ℕ := fragmentHeaderSize

/-- `MAX_DELTA_SIZE`. -/
def maxDeltaSize : ℕ := blcksz + 2 * fragmentHeaderSize

/-! ## Writing -/

section Write

variable (cur target : RawPage)

/-- A fragment, from one offset to another. -/
def fragmentBytes (f : ℕ × ℕ) : List UInt8 :=
  fieldBytes f.1 ++ (fieldBytes (f.2 - f.1) ++ (List.range' f.1 (f.2 - f.1)).map target)

/-- `writeFragment`, with data from the target page. -/
def writeFragment (delta : List UInt8) (offset length : ℕ) : List UInt8 :=
  delta ++ fragmentBytes target (offset, offset + length)

/-- `while (i < loopEnd && p(i)) i++`, with `n` bytes left. -/
def scan (p : ℕ → Bool) : ℕ → ℕ → ℕ
  | 0, i => i
  | n + 1, i => if p i then scan p n (i + 1) else i

/-- The variables of the loop; `none` is `-1`. -/
structure RegionLoop where
  i : ℕ
  fragmentBegin : Option ℕ
  fragmentEnd : Option ℕ
  delta : List UInt8

/-- The stanza of `computeRegionDelta` for an unmatched byte. -/
def unmatchedBytes (loopEnd : ℕ) (st : RegionLoop) : RegionLoop :=
  if cur st.i = target st.i then st
  else
    { st with
      fragmentBegin := some (st.fragmentBegin.getD st.i)
      fragmentEnd := none
      i := scan (fun j => cur j ≠ target j) (loopEnd - (st.i + 1)) (st.i + 1) }

/-- The rest of the turn, at a matched byte. -/
def matchedBytes (loopEnd : ℕ) (st : RegionLoop) : RegionLoop :=
  let i := scan (fun j => cur j = target j) (loopEnd - (st.i + 1)) (st.i + 1)
  match st.fragmentBegin with
  | none => { st with i := i, fragmentEnd := some st.i }
  | some b =>
    if matchThreshold < i - st.i then ⟨i, none, none, writeFragment target st.delta b (st.i - b)⟩
    else { st with i := i, fragmentEnd := some st.i }

/-- The loop; every turn moves `i` forward. -/
def regionLoop (loopEnd : ℕ) : ℕ → RegionLoop → RegionLoop
  | 0, st => st
  | fuel + 1, st =>
    if st.i < loopEnd then
      let st := unmatchedBytes cur target loopEnd st
      -- the `break`
      if loopEnd ≤ st.i then st
      else regionLoop loopEnd fuel (matchedBytes cur target loopEnd st)
    else st

/-- `computeRegionDelta`. -/
def computeRegionDelta (delta : List UInt8) (targetStart targetEnd validStart validEnd : ℕ) :
    List UInt8 :=
  let loopEnd := min targetEnd validEnd
  let st := regionLoop cur target loopEnd (loopEnd - max targetStart validStart)
    ⟨max targetStart validStart, if targetStart < validStart then some targetStart else none, none,
      delta⟩
  let last := if loopEnd < targetEnd then some (st.fragmentBegin.getD loopEnd) else st.fragmentBegin
  let stop := if loopEnd < targetEnd then targetEnd else st.fragmentEnd.getD targetEnd
  match last with
  | none => st.delta
  | some b => writeFragment target st.delta b (stop - b)

/-- `computeDelta`. -/
def computeDelta : List UInt8 :=
  let lower := computeRegionDelta cur target [] 0 (pdLower target) 0 (pdLower cur)
  computeRegionDelta cur target lower (pdUpper target) blcksz (pdUpper cur) blcksz

/-- What `GenericXLogFinish` leaves in the buffer, but for the LSN. -/
def finishedPage : RawPage := fun j =>
  if j < pdLower target then target j
  else if j < pdUpper target then 0
  else if j < blcksz then target j
  else cur j

end Write

/-! ## Replay -/

/-- `applyPageRedo`. -/
def applyPageRedo (page : RawPage) : List UInt8 → RawPage
  | o₀ :: o₁ :: l₀ :: l₁ :: rest =>
    applyPageRedo (fun j =>
      if fieldOf o₀ o₁ ≤ j ∧ j < fieldOf o₀ o₁ + fieldOf l₀ l₁ then rest.getD (j - fieldOf o₀ o₁) 0
      else page j) (rest.drop (fieldOf l₀ l₁))
  | _ => page
termination_by delta => delta.length

/-- What `generic_redo`, and `polar_generic_idx_redo` in a worker, make of the page, but for the
LSN, which is that of the record's end as on the page of the writer. -/
def replayedPage (page : RawPage) (delta : List UInt8) : RawPage := fun j =>
  if pdLower (applyPageRedo page delta) ≤ j ∧ j < pdUpper (applyPageRedo page delta) then 0
  else applyPageRedo page delta j

/-! ## The loops -/

section Scan

variable {p : ℕ → Bool}

lemma le_scan (n i : ℕ) : i ≤ scan p n i := by
  induction n generalizing i with
  | zero => exact le_rfl
  | succ n ih =>
      rw [scan]
      split
      · exact (Nat.le_succ i).trans (ih (i + 1))
      · exact le_rfl

lemma scan_le (n i : ℕ) : scan p n i ≤ i + n := by
  induction n generalizing i with
  | zero => exact le_rfl
  | succ n ih =>
      rw [scan]
      split
      · exact (ih (i + 1)).trans (by omega)
      · exact Nat.le_add_right _ _

lemma scan_passed {n i j : ℕ} (hi : i ≤ j) (hj : j < scan p n i) : p j = true := by
  induction n generalizing i with
  | zero => exact absurd (hi.trans_lt hj) (lt_irrefl i)
  | succ n ih =>
      rw [scan] at hj
      split at hj
      case isTrue hp =>
        rcases hi.eq_or_lt with rfl | hlt
        · exact hp
        · exact ih hlt hj
      case isFalse => omega

lemma scan_stopped {n i : ℕ} (h : scan p n i < i + n) : p (scan p n i) = false := by
  induction n generalizing i with
  | zero => exact absurd h (lt_irrefl i)
  | succ n ih =>
      rw [scan] at h ⊢
      split at h
      case isTrue hp =>
        rw [if_pos hp]
        exact ih (by omega)
      case isFalse hp =>
        rw [if_neg hp]
        exact Bool.eq_false_iff.mpr hp

end Scan

/-- Up to `stop` the two pages agree or a fragment has the byte, and the fragments take at most
`slack` bytes more than there are. -/
structure Settled (cur target : RawPage) (slack start stop : ℕ) (frags : List (ℕ × ℕ)) : Prop where
  le : start ≤ stop
  inside : ∀ f ∈ frags, start ≤ f.1 ∧ f.1 ≤ f.2 ∧ f.2 ≤ stop
  covered : ∀ j, start ≤ j → j < stop → cur j = target j ∨ ∃ f ∈ frags, f.1 ≤ j ∧ j < f.2
  size : (frags.flatMap (fragmentBytes target)).length ≤ stop - start + slack

section Settled

variable {cur target : RawPage} {slack start stop : ℕ} {frags : List (ℕ × ℕ)}

lemma settled_nil : Settled cur target 0 start start [] :=
  ⟨le_rfl, by simp, fun j h h' => absurd h' (by omega), by simp⟩

lemma Settled.inside_le (h : Settled cur target slack start stop frags) {i : ℕ} (hle : stop ≤ i)
    {f : ℕ × ℕ} (hf : f ∈ frags) : start ≤ f.1 ∧ f.1 ≤ f.2 ∧ f.2 ≤ i := by
  obtain ⟨hstart, hends, hstop⟩ := h.inside f hf
  exact ⟨hstart, hends, hstop.trans hle⟩

lemma Settled.matched (h : Settled cur target slack start stop frags) {i : ℕ} (hle : stop ≤ i)
    (heq : ∀ j, stop ≤ j → j < i → cur j = target j) :
    Settled cur target (slack - (i - stop)) start i frags := by
  refine ⟨h.le.trans hle, fun f hf => h.inside_le hle hf, fun j hj hji => ?_, ?_⟩
  · rcases lt_or_ge j stop with hlt | hge
    · exact h.covered j hj hlt
    · exact .inl (heq j hge hji)
  · have hsize := h.size
    have hstart := h.le
    omega

lemma Settled.write (h : Settled cur target 0 start stop frags) {i : ℕ} (hle : stop ≤ i) :
    Settled cur target fragmentHeaderSize start i (frags ++ [(stop, i)]) := by
  refine ⟨h.le.trans hle, ?_, fun j hj hji => ?_, ?_⟩
  · intro f hf
    rcases List.mem_append.mp hf with hf | hf
    · exact h.inside_le hle hf
    · obtain rfl := List.mem_singleton.mp hf
      exact ⟨h.le, hle, le_rfl⟩
  · rcases lt_or_ge j stop with hlt | hge
    · refine (h.covered j hj hlt).imp_right ?_
      rintro ⟨f, hf, hin⟩
      exact ⟨f, List.mem_append_left _ hf, hin⟩
    · exact .inr ⟨(stop, i), by simp, hge, hji⟩
  · have hsize := h.size
    have hstart := h.le
    simp only [List.flatMap_append, List.length_append, List.flatMap_singleton, fragmentBytes,
      fieldBytes, List.length_cons, List.length_nil, List.length_map, List.length_range',
      fragmentHeaderSize]
    omega

lemma Settled.mono (h : Settled cur target slack start stop frags) {slack' : ℕ}
    (hle : slack ≤ slack') : Settled cur target slack' start stop frags :=
  ⟨h.le, h.inside, h.covered, h.size.trans (by omega)⟩

end Settled

section Region

variable {cur target : RawPage} {delta₀ : List UInt8} {start stop loopEnd : ℕ} {st : RegionLoop}
  {frags : List (ℕ × ℕ)}

/-- The variables of the loop, in the middle of a region. -/
structure RegionOk (cur target : RawPage) (delta₀ : List UInt8) (start stop loopEnd : ℕ)
    (st : RegionLoop) (frags : List (ℕ × ℕ)) : Prop where
  written : st.delta = delta₀ ++ frags.flatMap (fragmentBytes target)
  outside : st.fragmentBegin = none → Settled cur target 0 start st.i frags ∧ st.i ≤ loopEnd
  within : ∀ b, st.fragmentBegin = some b →
    Settled cur target 0 start b frags ∧ b ≤ stop ∧ b ≤ st.i
  ended : ∀ b e, st.fragmentBegin = some b → st.fragmentEnd = some e →
    b ≤ e ∧ e ≤ stop ∧ ∀ j, e ≤ j → j < st.i → cur j = target j

/-- Unmatched bytes belong to the open fragment, or open one. -/
lemma RegionOk.unmatchedBytes (h : RegionOk cur target delta₀ start stop loopEnd st frags)
    (hend : loopEnd ≤ stop) (hi : st.i < loopEnd) :
    RegionOk cur target delta₀ start stop loopEnd
      (GroundDB.unmatchedBytes cur target loopEnd st) frags := by
  unfold GroundDB.unmatchedBytes
  split
  · exact h
  · have hle := le_scan (p := fun j => cur j ≠ target j) (loopEnd - (st.i + 1)) (st.i + 1)
    refine ⟨h.written, ?_, ?_, ?_⟩
    · rintro ⟨⟩
    · rintro b hb
      obtain rfl := Option.some.inj hb
      cases hbegin : st.fragmentBegin with
      | none =>
          exact ⟨(h.outside hbegin).1, (hi.trans_le hend).le, by dsimp only [Option.getD]; omega⟩
      | some b =>
          obtain ⟨hs, hstop, hbi⟩ := h.within b hbegin
          exact ⟨hs, hstop, by dsimp only [Option.getD]; omega⟩
    · rintro b e - ⟨⟩

/-- Where the stanza leaves off before the end, the bytes match. -/
lemma unmatchedBytes_at (hi : st.i < loopEnd)
    (hlt : (unmatchedBytes cur target loopEnd st).i < loopEnd) :
    st.i ≤ (unmatchedBytes cur target loopEnd st).i ∧
      cur (unmatchedBytes cur target loopEnd st).i =
        target (unmatchedBytes cur target loopEnd st).i := by
  unfold unmatchedBytes at hlt ⊢
  split at hlt
  case isTrue heq =>
    rw [if_pos heq]
    exact ⟨le_rfl, heq⟩
  case isFalse hne =>
    have hle := le_scan (p := fun j => cur j ≠ target j) (loopEnd - (st.i + 1)) (st.i + 1)
    have hstop := scan_stopped (p := fun j => cur j ≠ target j) (n := loopEnd - (st.i + 1))
      (i := st.i + 1) (by dsimp only at hlt; omega)
    rw [if_neg hne]
    exact ⟨by dsimp only; omega, by simpa using hstop⟩

/-- Matched bytes end the open fragment, and more than a header's worth of them closes it. -/
lemma RegionOk.matchedBytes (h : RegionOk cur target delta₀ start stop loopEnd st frags)
    (hend : loopEnd ≤ stop) (hi : st.i < loopEnd) (heq : cur st.i = target st.i) :
    ∃ frags', RegionOk cur target delta₀ start stop loopEnd
      (GroundDB.matchedBytes cur target loopEnd st) frags' := by
  have hle := le_scan (p := fun j => cur j = target j) (loopEnd - (st.i + 1)) (st.i + 1)
  have hto := scan_le (p := fun j => cur j = target j) (loopEnd - (st.i + 1)) (st.i + 1)
  have hmatch : ∀ j, st.i ≤ j →
      j < scan (fun j => cur j = target j) (loopEnd - (st.i + 1)) (st.i + 1) →
      cur j = target j := by
    intro j hj hlt
    rcases hj.eq_or_lt with rfl | hgt
    · exact heq
    · simpa using scan_passed hgt hlt
  unfold GroundDB.matchedBytes
  generalize scan (fun j => cur j = target j) (loopEnd - (st.i + 1)) (st.i + 1) = i at *
  cases hbegin : st.fragmentBegin with
  | none =>
      refine ⟨frags, h.written, fun _ => ⟨?_, by simp; omega⟩, ?_, ?_⟩
      · have hs := (h.outside hbegin).1.matched (by omega : st.i ≤ i) hmatch
        rwa [Nat.zero_sub] at hs
      · rintro b ⟨⟩
      · rintro b e ⟨⟩
  | some b =>
      obtain ⟨hs, hstop, hbi⟩ := h.within b hbegin
      dsimp only
      split
      case isTrue hlong =>
        refine ⟨frags ++ [(b, st.i)], ?_, fun _ => ⟨?_, by simp; omega⟩, ?_, ?_⟩
        · simp [writeFragment, h.written, Nat.add_sub_cancel' hbi]
        · have hs' := (hs.write hbi).matched (by omega : st.i ≤ i) hmatch
          have hzero : fragmentHeaderSize - (i - st.i) = 0 := Nat.sub_eq_zero_of_le hlong.le
          rwa [hzero] at hs'
        · rintro b ⟨⟩
        · rintro b e ⟨⟩
      case isFalse =>
        refine ⟨frags, h.written, ?_, ?_, ?_⟩
        · rintro ⟨⟩
        · rintro b ⟨⟩
          exact ⟨hs, hstop, by dsimp only; omega⟩
        · rintro b e ⟨⟩ ⟨⟩
          exact ⟨hbi, (hi.trans_le hend).le, hmatch⟩

lemma lt_matchedBytes (cur target : RawPage) (loopEnd : ℕ) (st : RegionLoop) :
    st.i < (matchedBytes cur target loopEnd st).i := by
  have hle := le_scan (p := fun j => cur j = target j) (loopEnd - (st.i + 1)) (st.i + 1)
  unfold matchedBytes
  grind

/-- **The loop** leaves the variables in order, at its end. -/
lemma RegionOk.regionLoop (h : RegionOk cur target delta₀ start stop loopEnd st frags)
    (hend : loopEnd ≤ stop) {fuel : ℕ} (hfuel : loopEnd - st.i ≤ fuel) :
    loopEnd ≤ (GroundDB.regionLoop cur target loopEnd fuel st).i ∧
      ∃ frags', RegionOk cur target delta₀ start stop loopEnd
        (GroundDB.regionLoop cur target loopEnd fuel st) frags' := by
  induction fuel generalizing st frags with
  | zero => exact ⟨by simp only [GroundDB.regionLoop]; omega, frags, h⟩
  | succ fuel ih =>
      rw [GroundDB.regionLoop]
      split
      case isFalse hi => exact ⟨by omega, frags, h⟩
      case isTrue hi =>
        have hok := h.unmatchedBytes hend hi
        dsimp only
        split
        case isTrue hbreak => exact ⟨hbreak, frags, hok⟩
        case isFalse hlt =>
          obtain ⟨hmono, heq⟩ := unmatchedBytes_at hi (not_le.mp hlt)
          obtain ⟨frags', hok'⟩ := hok.matchedBytes hend (not_le.mp hlt) heq
          have hmore := lt_matchedBytes cur target loopEnd
            (GroundDB.unmatchedBytes cur target loopEnd st)
          exact ih hok' (by omega)

/-- **A region**: its fragments settle it, at the cost of one header. -/
lemma computeRegionDelta_settled (cur target : RawPage) (delta : List UInt8) (validStart : ℕ)
    {validEnd : ℕ} (hstop : start ≤ stop) (hvalid : start ≤ validEnd) :
    ∃ frags, computeRegionDelta cur target delta start stop validStart validEnd =
        delta ++ frags.flatMap (fragmentBytes target) ∧
      Settled cur target fragmentHeaderSize start stop frags := by
  have hinit : RegionOk cur target delta start stop (min stop validEnd)
      ⟨max start validStart, if start < validStart then some start else none, none, delta⟩ [] := by
    refine ⟨by simp, ?_, ?_, ?_⟩
    · intro hnone
      have hle : validStart ≤ start := by simpa using hnone
      rw [max_eq_left hle]
      exact ⟨settled_nil, le_min hstop hvalid⟩
    · intro b hb
      obtain ⟨-, rfl⟩ : start < validStart ∧ start = b := by simpa using hb
      exact ⟨settled_nil, hstop, le_max_left _ _⟩
    · rintro b e - ⟨⟩
  obtain ⟨hend, frags, hok⟩ := hinit.regionLoop (min_le_left _ _) le_rfl
  unfold computeRegionDelta
  dsimp only at hend hok ⊢
  generalize regionLoop cur target (min stop validEnd) _ _ = st at hend hok ⊢
  have hwrite : ∀ b e, Settled cur target 0 start b frags → b ≤ e → e ≤ stop →
      (∀ j, e ≤ j → j < stop → cur j = target j) →
      ∃ frags', writeFragment target st.delta b (e - b) =
          delta ++ frags'.flatMap (fragmentBytes target) ∧
        Settled cur target fragmentHeaderSize start stop frags' := by
    intro b e hs hbe he heq
    refine ⟨frags ++ [(b, e)], ?_, ((hs.write hbe).matched he heq).mono (Nat.sub_le _ _)⟩
    simp [writeFragment, hok.written, Nat.add_sub_cancel' hbe]
  by_cases hlt : min stop validEnd < stop
  · simp only [if_pos hlt]
    refine hwrite _ stop ?_ ?_ le_rfl (fun j h h' => absurd h' (by omega))
    · cases hbegin : st.fragmentBegin with
      | none =>
          obtain ⟨hs, hi⟩ := hok.outside hbegin
          rwa [le_antisymm hi hend] at hs
      | some b => exact (hok.within b hbegin).1
    · cases hbegin : st.fragmentBegin with
      | none => exact hlt.le
      | some b => exact (hok.within b hbegin).2.1
  · simp only [if_neg hlt]
    have hmin : min stop validEnd = stop := le_antisymm (min_le_left _ _) (not_lt.mp hlt)
    rw [hmin] at hend hok
    cases hbegin : st.fragmentBegin with
    | none =>
        obtain ⟨hs, hi⟩ := hok.outside hbegin
        rw [le_antisymm hi hend] at hs
        exact ⟨frags, hok.written, hs.mono (Nat.zero_le _)⟩
    | some b =>
        obtain ⟨hs, hb, -⟩ := hok.within b hbegin
        cases hstopped : st.fragmentEnd with
        | none => exact hwrite b stop hs hb le_rfl (fun j h h' => absurd h' (by omega))
        | some e =>
            obtain ⟨hbe, he, heq⟩ := hok.ended b e hbegin hstopped
            exact hwrite b e hs hbe he (fun j h h' => heq j h (h'.trans_le hend))

end Region

/-- The delta of two pages as a list of fragments, none of them in the hole. -/
lemma computeDelta_fragments (cur : RawPage) {target : RawPage}
    (hlower : pdLower target ≤ pdUpper target) (hupper : pdUpper target ≤ blcksz) :
    ∃ frags : List (ℕ × ℕ), computeDelta cur target = frags.flatMap (fragmentBytes target) ∧
      (computeDelta cur target).length ≤ maxDeltaSize ∧
      (∀ f ∈ frags, f.1 ≤ f.2 ∧ f.2 ≤ blcksz ∧ (f.2 ≤ pdLower target ∨ pdUpper target ≤ f.1)) ∧
      ∀ j, j < pdLower target ∨ (pdUpper target ≤ j ∧ j < blcksz) →
        cur j = target j ∨ ∃ f ∈ frags, f.1 ≤ j ∧ j < f.2 := by
  obtain ⟨low, hlow, slow⟩ := computeRegionDelta_settled cur target [] 0
    (Nat.zero_le (pdLower target)) (Nat.zero_le (pdLower cur))
  obtain ⟨up, hup, sup⟩ := computeRegionDelta_settled cur target
    (low.flatMap (fragmentBytes target)) (pdUpper cur) hupper hupper
  have hdelta : computeDelta cur target = (low ++ up).flatMap (fragmentBytes target) := by
    rw [computeDelta, hlow, List.nil_append, hup, List.flatMap_append]
  refine ⟨low ++ up, hdelta, ?_, ?_, ?_⟩
  · have hl := slow.size
    have hu := sup.size
    rw [hdelta, List.flatMap_append, List.length_append, maxDeltaSize]
    omega
  · intro f hf
    rcases List.mem_append.mp hf with hf | hf
    · obtain ⟨-, hle, hend⟩ := slow.inside f hf
      exact ⟨hle, by omega, .inl hend⟩
    · obtain ⟨hstart, hle, hend⟩ := sup.inside f hf
      exact ⟨hle, hend, .inr hstart⟩
  · rintro j (hj | ⟨hj, hj'⟩)
    · refine (slow.covered j (Nat.zero_le j) hj).imp_right ?_
      rintro ⟨f, hf, hin⟩
      exact ⟨f, List.mem_append_left _ hf, hin⟩
    · refine (sup.covered j hj hj').imp_right ?_
      rintro ⟨f, hf, hin⟩
      exact ⟨f, List.mem_append_right _ hf, hin⟩

/-! ## Replay of the delta -/

lemma fieldOf_fieldBytes {n : ℕ} (h : n ≤ blcksz) :
    fieldOf (UInt8.ofNat n) (UInt8.ofNat (n / 256)) = n := by
  have h' : n ≤ 8192 := h
  simp only [fieldOf, UInt8.toNat_ofNat']
  omega

lemma applyPageRedo_fragment (page target : RawPage) {f : ℕ × ℕ} (hle : f.1 ≤ f.2)
    (hend : f.2 ≤ blcksz) (rest : List UInt8) :
    applyPageRedo page (fragmentBytes target f ++ rest) =
      applyPageRedo (fun j => if f.1 ≤ j ∧ j < f.2 then target j else page j) rest := by
  have hlen : (List.map target (List.range' f.1 (f.2 - f.1))).length = f.2 - f.1 := by simp
  simp only [fragmentBytes, fieldBytes, List.cons_append, List.nil_append, applyPageRedo,
    fieldOf_fieldBytes (hle.trans hend), fieldOf_fieldBytes ((Nat.sub_le _ _).trans hend),
    Nat.add_sub_cancel' hle]
  congr 1
  · funext j
    split
    case isTrue hj =>
      rw [List.getD_eq_getElem?_getD, List.getElem?_append_left (by omega), List.getElem?_map,
        List.getElem?_range' (by omega)]
      simp [Nat.add_sub_cancel' hj.1]
    case isFalse => rfl
  · rw [List.drop_append_of_le_length hlen.ge, List.drop_eq_nil_of_le hlen.le, List.nil_append]

/-- Replay takes the bytes inside fragments from the target. -/
lemma applyPageRedo_fragments (page target : RawPage) {frags : List (ℕ × ℕ)}
    (h : ∀ f ∈ frags, f.1 ≤ f.2 ∧ f.2 ≤ blcksz) (j : ℕ) :
    applyPageRedo page (frags.flatMap (fragmentBytes target)) j =
      if ∃ f ∈ frags, f.1 ≤ j ∧ j < f.2 then target j else page j := by
  induction frags generalizing page with
  | nil => simp [applyPageRedo]
  | cons f frags ih =>
      obtain ⟨hle, hend⟩ := h f List.mem_cons_self
      rw [List.flatMap_cons, applyPageRedo_fragment page target hle hend,
        ih _ (fun g hg => h g (List.mem_cons_of_mem f hg))]
      simp only [List.exists_mem_cons_iff]
      by_cases hf : f.1 ≤ j ∧ j < f.2
      · rw [if_pos hf, ite_self, if_pos (.inl hf)]
      · simp only [hf, false_or, if_false]

section Replay

variable {cur target : RawPage}

lemma applyPageRedo_computeDelta (hlower : pdLower target ≤ pdUpper target)
    (hupper : pdUpper target ≤ blcksz) {j : ℕ}
    (hj : j < pdLower target ∨ (pdUpper target ≤ j ∧ j < blcksz)) :
    applyPageRedo cur (computeDelta cur target) j = target j := by
  obtain ⟨frags, hdelta, -, hin, hcovered⟩ := computeDelta_fragments cur hlower hupper
  rw [hdelta, applyPageRedo_fragments cur target (fun f hf => ⟨(hin f hf).1, (hin f hf).2.1⟩)]
  split
  case isTrue => rfl
  case isFalse hnot => exact (hcovered j hj).resolve_right hnot

/-- **Round trip.**  Replaying the delta on the page as it was gives the page as
`GenericXLogFinish` left it, whatever the two pages have in common. -/
theorem generic_delta_replays (cur target : RawPage) (hheader : 16 ≤ pdLower target)
    (hlower : pdLower target ≤ pdUpper target) (hupper : pdUpper target ≤ blcksz) (j : ℕ)
    (hj : j < blcksz) :
    replayedPage cur (computeDelta cur target) j = finishedPage cur target j := by
  have hsame : ∀ k, k < pdLower target ∨ (pdUpper target ≤ k ∧ k < blcksz) →
      applyPageRedo cur (computeDelta cur target) k = target k :=
    fun k hk => applyPageRedo_computeDelta hlower hupper hk
  -- the delta brings the header, and with it the bounds of the hole
  have hlo : pdLower (applyPageRedo cur (computeDelta cur target)) = pdLower target := by
    rw [pdLower, pdLower, hsame 12 (.inl (by omega)), hsame 13 (.inl (by omega))]
  have hup : pdUpper (applyPageRedo cur (computeDelta cur target)) = pdUpper target := by
    rw [pdUpper, pdUpper, hsame 14 (.inl (by omega)), hsame 15 (.inl (by omega))]
  rw [replayedPage, finishedPage, hlo, hup]
  by_cases hl : j < pdLower target
  · rw [if_neg (by omega), if_pos hl, hsame j (.inl hl)]
  · by_cases hu : j < pdUpper target
    · rw [if_pos ⟨not_lt.mp hl, hu⟩, if_neg hl, if_pos hu]
    · rw [if_neg (by omega), if_neg hl, if_neg hu, if_pos hj, hsame j (.inr ⟨not_lt.mp hu, hj⟩)]

/-- The special space of an index page, over a page of zeroes. -/
theorem generic_delta_replays_new_page :
    replayedPage (fun _ => 0) (computeDelta (fun _ => 0)
        (fun j => if j = 12 then 24 else if j = 14 then 240 else if j = 15 then 31 else 7)) 8180 =
      finishedPage (fun _ => 0)
        (fun j => if j = 12 then 24 else if j = 14 then 240 else if j = 15 then 31 else 7) 8180 :=
  generic_delta_replays _ _ (by decide) (by decide) (by decide) 8180 (by decide)

/-- **Room.**  The delta from any page to one whose header has `pd_lower <= pd_upper <= BLCKSZ` fits
into the buffer that `PageData` has for it, and replay of it, on whatever page, writes neither past
the page nor into the hole. -/
theorem generic_delta_fits (cur target : RawPage) (hlower : pdLower target ≤ pdUpper target)
    (hupper : pdUpper target ≤ blcksz) :
    (computeDelta cur target).length ≤ maxDeltaSize ∧
      ∀ page j, blcksz ≤ j ∨ (pdLower target ≤ j ∧ j < pdUpper target) →
        applyPageRedo page (computeDelta cur target) j = page j := by
  obtain ⟨frags, hdelta, hsize, hin, -⟩ := computeDelta_fragments cur hlower hupper
  refine ⟨hsize, fun page j hj => ?_⟩
  rw [hdelta, applyPageRedo_fragments page target (fun f hf => ⟨(hin f hf).1, (hin f hf).2.1⟩),
    if_neg]
  rintro ⟨f, hf, hfj⟩
  obtain ⟨-, hend, hhole⟩ := hin f hf
  omega

theorem generic_delta_fits_new_page :
    (computeDelta (fun _ => 0) (fun j => if j = 12 then 24 else if j = 15 then 32 else 0)).length ≤
      maxDeltaSize :=
  (generic_delta_fits _ _ (by decide) (by decide)).1

end Replay

end GroundDB
