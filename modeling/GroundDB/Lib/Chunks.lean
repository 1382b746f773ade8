import GroundDB.Lib.Memory

/-!
# Taking a stream in pieces

A loop asks a source again and again for `size` elements.  Each call fails or gives as many elements
as it likes up to that number; the loop stores them at a place that may depend on its counter, adds
their number to the counter and goes on until the counter has reached `size` or a call fails.  The
counter is a 32-bit integer that wraps around.

What the source answers is a list of results.  Since each call asks for `size` elements again, the
last one may give more than what is missing.

* `fill_invariant`: what every piece keeps, a run of the loop keeps.
* `fill_short`: with less than `size` elements before the first failure, the loop does not succeed.
* `fill_mono`: what has been taken stays taken.
-/

namespace Chunks

open Memory

variable {β : Type*} {cap : ℕ}

/-- The result of a call that asks for `cap` elements. -/
inductive Result (cap : ℕ)
  | failed
  | got (n : Fin (cap + 1))
deriving DecidableEq, Repr

/-- The elements a sequence of results delivers before the first failure. -/
def delivered : List (Result cap) → ℕ
  | [] => 0
  | .failed :: _ => 0
  | .got n :: rs => n + delivered rs

/-- The first result that gives elements. -/
def firstPiece : List (Result cap) → Option ℕ
  | [] => none
  | .failed :: _ => none
  | .got n :: rs => if n.val = 0 then firstPiece rs else some n

lemma firstPiece_bounds {rs : List (Result cap)} {k : ℕ} (h : firstPiece rs = some k) :
    0 < k ∧ k ≤ cap := by
  induction rs with
  | nil => simp [firstPiece] at h
  | cons r rs ih =>
      cases r with
      | failed => simp [firstPiece] at h
      | got n =>
          simp only [firstPiece] at h
          split_ifs at h with hn
          · exact ih h
          · cases h
            omega

/-- No result that the loop receives gives more than what is `missing`. -/
def Fits : ℕ → List (Result cap) → Prop
  | 0, _ => True
  | _ + 1, [] => True
  | _ + 1, .failed :: _ => True
  | missing + 1, .got n :: rs => n ≤ missing + 1 ∧ Fits (missing + 1 - n) rs

@[simp] lemma fits_nil (missing : ℕ) : Fits missing ([] : List (Result cap)) := by
  cases missing <;> simp [Fits]

@[simp] lemma fits_failed (missing : ℕ) (rs : List (Result cap)) :
    Fits missing (.failed :: rs) := by
  cases missing <;> simp [Fits]

lemma fits_got {missing : ℕ} (hpos : 0 < missing) (n : Fin (cap + 1)) (rs : List (Result cap)) :
    Fits missing (.got n :: rs) ↔ n ≤ missing ∧ Fits (missing - n) rs := by
  obtain ⟨m, rfl⟩ := Nat.exists_eq_add_of_lt hpos
  simp [Fits]

/-! ## The loop -/

/-- The loop's variables, the number of elements taken from the source, and the memory. -/
structure State (β : Type*) where
  total : Int32
  last : Int32
  taken : ℕ
  mem : ℤ → β

/-- How the loop stands: a call failed, the counter has reached the size, or it waits for the next
result. -/
inductive Status
  | failed
  | full
  | waiting
deriving DecidableEq, Repr

/-- A call gave `n` elements. -/
def State.got (place : Int32 → ℤ) (source : ℕ → β) (st : State β) (n : ℕ) : State β :=
  { total := st.total + Int32.ofNat n, last := Int32.ofNat n, taken := st.taken + n
    mem := write st.mem (place st.total) (piece source st.taken n) }

/-- `while (total < size)`: take the next piece. -/
def fill (size : Int32) (place : Int32 → ℤ) (source : ℕ → β) :
    List (Result cap) → State β → Status × State β
  | [], st => (if st.total < size then .waiting else .full, st)
  | .failed :: _, st => if st.total < size then (.failed, { st with last := -1 }) else (.full, st)
  | .got n :: rs, st =>
      if st.total < size then fill size place source rs (st.got place source n) else (.full, st)

section Loop

variable {size : Int32} {place : Int32 → ℤ} {source : ℕ → β} {st : State β}
  {rs : List (Result cap)}

lemma fill_of_ge (h : ¬ st.total < size) : fill size place source rs st = (.full, st) := by
  cases rs with
  | nil => simp [fill, h]
  | cons r rs => cases r <;> simp [fill, h]

lemma fill_got {n : Fin (cap + 1)} (h : st.total < size) :
    fill size place source (.got n :: rs) st =
      fill size place source rs (st.got place source n) := by
  simp [fill, h]

lemma fill_failed (h : st.total < size) :
    fill size place source (.failed :: rs) st = (.failed, { st with last := -1 }) := by
  simp [fill, h]

/-- **Invariant rule**: what is kept by each piece that the loop takes is kept by the loop. -/
lemma fill_invariant {P : State β → Prop}
    (hgot : ∀ st (n : Fin (cap + 1)), P st → st.total < size → P (st.got place source n))
    (hfail : ∀ st, P st → P { st with last := -1 }) (rs : List (Result cap)) :
    P st → P (fill size place source rs st).2 := by
  induction rs generalizing st with
  | nil => exact fun h => h
  | cons r rs ih =>
      intro h
      by_cases hlt : st.total < size
      · cases r with
        | failed => rw [fill_failed hlt]; exact hfail st h
        | got n => rw [fill_got hlt]; exact ih (hgot st n h hlt)
      · rw [fill_of_ge hlt]
        exact h

lemma last_of_failed (h : (fill size place source rs st).1 = .failed) :
    (fill size place source rs st).2.last = -1 := by
  induction rs generalizing st with
  | nil =>
      simp only [fill] at h
      split_ifs at h
  | cons r rs ih =>
      by_cases hlt : st.total < size
      · cases r with
        | failed => rw [fill_failed hlt]
        | got n =>
            rw [fill_got hlt] at h ⊢
            exact ih h
      · simp [fill_of_ge hlt] at h

lemma fill_mono (size : Int32) (place : Int32 → ℤ) (source : ℕ → β) (rs : List (Result cap))
    (st : State β) : st.taken ≤ (fill size place source rs st).2.taken := by
  refine fill_invariant (P := fun st' => st.taken ≤ st'.taken) ?_ (fun _ h => h) rs le_rfl
  intro st' n h _
  exact h.trans (Nat.le_add_right _ _)

/-! ## While the counter is right -/

/-- The counter is the number of elements taken. -/
def State.Counts (st : State β) : Prop := st.total.toInt = st.taken

lemma State.Counts.lt_iff (h : st.Counts) : st.total < size ↔ (st.taken : ℤ) < size.toInt := by
  rw [Int32.lt_iff_toInt_lt, h]

lemma counts_start (last : Int32) (mem : ℤ → β) : (⟨0, last, 0, mem⟩ : State β).Counts := rfl

lemma State.Counts.got (h : st.Counts) {n : ℕ} (hlt : st.taken + n < 2 ^ 31) :
    (st.got place source n).Counts := by
  have hn : (Int32.ofNat n).toInt = n := Int32.toInt_ofNat_of_lt (by omega)
  have hsum : (st.total + Int32.ofNat n).toInt = st.taken + n := by
    rw [Int32.toInt_add, hn, h, Int.bmod_eq_of_le] <;> omega
  simpa [State.Counts, State.got] using hsum

/-- **With less than `size` elements before the first failure** the loop does not succeed; it takes
what is delivered. -/
lemma fill_short (place : Int32 → ℤ) (source : ℕ → β) (hst : st.Counts)
    (hshort : (st.taken + delivered rs : ℤ) < size.toInt) :
    (fill size place source rs st).1 ≠ .full ∧
      (fill size place source rs st).2.taken = st.taken + delivered rs := by
  have hsize := size.toInt_lt
  induction rs generalizing st with
  | nil =>
      have hlt : st.total < size := hst.lt_iff.mpr (by simpa [delivered] using hshort)
      simp [fill, hlt, delivered]
  | cons r rs ih =>
      cases r with
      | failed =>
          have hlt : st.total < size := hst.lt_iff.mpr (by simpa [delivered] using hshort)
          simp [fill_failed hlt, delivered]
      | got n =>
          rw [delivered, Nat.cast_add] at hshort
          have hlt : st.total < size := hst.lt_iff.mpr (by omega)
          have hgot : (st.got place source n).Counts := hst.got (by omega)
          obtain ⟨hstatus, htaken⟩ := ih hgot (by simp only [State.got]; omega)
          rw [fill_got hlt]
          refine ⟨hstatus, htaken.trans ?_⟩
          simp only [State.got, delivered]
          omega

end Loop

/-! ## Pieces stored one behind the other -/

section Append

variable {size : Int32} {base : ℤ} {source : ℕ → β} {mem : ℤ → β} {st : State β}
  {rs : List (Result cap)}

/-- The place behind what has been counted. -/
def behind (base : ℤ) (total : Int32) : ℤ := base + total.toInt

/-- The elements taken stand in order from `base` on, and nothing else has been stored. -/
structure Appended (size : Int32) (base : ℤ) (source : ℕ → β) (mem : ℤ → β) (st : State β) :
    Prop where
  counts : st.Counts
  taken_le : (st.taken : ℤ) ≤ size.toInt
  mem_eq : st.mem = write mem base (piece source 0 st.taken)

lemma Appended.got (h : Appended size base source mem st) {n : ℕ}
    (hn : (st.taken + n : ℤ) ≤ size.toInt) :
    Appended size base source mem (st.got (behind base) source n) := by
  have hsize := size.toInt_lt
  refine ⟨h.counts.got (by omega), by simpa [State.got] using hn, ?_⟩
  have hplace : behind base st.total = base + (piece source 0 st.taken).length := by
    rw [behind, h.counts, length_piece]
  simp only [State.got]
  rw [h.mem_eq, hplace, write_write, piece_add, zero_add]

lemma Appended.taken_eq (h : Appended size base source mem st) (hge : ¬ st.total < size) :
    (st.taken : ℤ) = size.toInt := by
  rw [h.counts.lt_iff] at hge
  have := h.taken_le
  omega

/-- **If every result fits**, the elements taken are appended, and there are `size` of them when the
loop is through. -/
lemma fill_fits (h : Appended size base source mem st)
    (hfits : Fits (size.toInt.toNat - st.taken) rs) :
    Appended size base source mem (fill size (behind base) source rs st).2 ∧
      ((fill size (behind base) source rs st).1 = .full →
        ((fill size (behind base) source rs st).2.taken : ℤ) = size.toInt) := by
  induction rs generalizing st with
  | nil =>
      refine ⟨h, fun hfull => h.taken_eq fun hlt => ?_⟩
      simp [fill, hlt] at hfull
  | cons r rs ih =>
      by_cases hlt : st.total < size
      · cases r with
        | failed =>
            rw [fill_failed hlt]
            exact ⟨⟨h.counts, h.taken_le, h.mem_eq⟩, by simp⟩
        | got n =>
            rw [fill_got hlt]
            rw [h.counts.lt_iff] at hlt
            obtain ⟨hn, hrest⟩ := (fits_got (by omega) n rs).mp hfits
            apply ih (h.got (by omega))
            rwa [State.got, ← Nat.sub_sub]
      · rw [fill_of_ge hlt]
        exact ⟨h, fun _ => h.taken_eq hlt⟩

/-- **Enough results that fit** bring the loop through, with a last result that gave something. -/
lemma fill_full (h : Appended size base source mem st) (hlt : st.total < size)
    (hfits : Fits (size.toInt.toNat - st.taken) rs)
    (henough : size.toInt ≤ st.taken + delivered rs) :
    (fill size (behind base) source rs st).1 = .full ∧
      0 < (fill size (behind base) source rs st).2.last := by
  have hsize := size.toInt_lt
  induction rs generalizing st with
  | nil => rw [h.counts.lt_iff] at hlt; simp only [delivered] at henough; omega
  | cons r rs ih =>
      cases r with
      | failed => rw [h.counts.lt_iff] at hlt; simp only [delivered] at henough; omega
      | got n =>
          rw [fill_got hlt]
          rw [h.counts.lt_iff] at hlt
          simp only [delivered, Nat.cast_add] at henough
          obtain ⟨hn, hrest⟩ := (fits_got (by omega) n rs).mp hfits
          have hgot : Appended size base source mem (st.got (behind base) source n) :=
            h.got (by omega)
          by_cases hmore : (st.got (behind base) source n).total < size
          · exact ih hgot hmore (by rwa [State.got, ← Nat.sub_sub])
              (by simp only [State.got]; omega)
          · have hall := hgot.taken_eq hmore
            simp only [State.got, Nat.cast_add] at hall
            rw [fill_of_ge hmore]
            refine ⟨rfl, ?_⟩
            rw [Int32.lt_iff_toInt_lt, State.got, Int32.toInt_ofNat_of_lt (by omega),
              Int32.toInt_zero]
            omega

/-- A source that is constant changes a cell to its constant only. -/
lemma got_const {place : Int32 → ℤ} {b : β} {a : ℤ} (hcell : st.mem a = b) (n : ℕ) :
    (st.got place (fun _ => b) n).mem a = b := by
  rcases write_cases st.mem (place st.total) (piece (fun _ => b) st.taken n) a with h | h
  · exact h.trans hcell
  · obtain ⟨_, -, heq⟩ := List.mem_map.mp h
    exact heq.symm

/-- **If a result does not fit**, the cell behind the array is overwritten. -/
lemma fill_overshoot {b : β} (h : Appended size base (fun _ => b) mem st)
    (hover : ¬ Fits (size.toInt.toNat - st.taken) rs) :
    (fill size (behind base) (fun _ => b) rs st).2.mem (base + size.toInt) = b := by
  induction rs generalizing st with
  | nil => exact absurd (fits_nil _) hover
  | cons r rs ih =>
      by_cases hlt : st.total < size
      · cases r with
        | failed => exact absurd (fits_failed _ rs) hover
        | got n =>
            rw [fill_got hlt]
            rw [h.counts.lt_iff] at hlt
            rw [fits_got (by omega), not_and] at hover
            by_cases hn : n ≤ size.toInt.toNat - st.taken
            · apply ih (h.got (by omega))
              rw [State.got, ← Nat.sub_sub]
              exact hover hn
            · -- this piece reaches over the end, and no later one restores the cell
              refine fill_invariant (P := fun st => st.mem (base + size.toInt) = b)
                (fun st' m hcell _ => got_const hcell m) (fun _ hcell => hcell) rs ?_
              have hstored := write_piece st.mem (base + st.taken) (fun _ => b) st.taken
                (not_le.mp hn)
              rw [show base + st.taken + ((size.toInt.toNat - st.taken : ℕ) : ℤ) =
                base + size.toInt by omega] at hstored
              simpa only [State.got, behind, show st.total.toInt = st.taken from h.counts]
      · have := h.taken_eq hlt
        rw [show size.toInt.toNat - st.taken = 0 by omega] at hover
        simp [Fits] at hover

end Append

/-! ## Pieces stored one over the other -/

section Overwrite

variable {size : Int32} {base : ℤ} {source : ℕ → β} {st : State β} {rs : List (Result cap)}

/-- **If the first piece is all there is to take**, it is stored. -/
lemma fill_firstPiece (base : ℤ) (source : ℕ → β) (hst : st.Counts) (htaken : st.taken = 0)
    (hfirst : firstPiece rs = some size.toInt.toNat) :
    (fill size (fun _ => base) source rs st).2.mem =
        write st.mem base (piece source 0 size.toInt.toNat) ∧
      (fill size (fun _ => base) source rs st).2.taken = size.toInt.toNat := by
  have hsize := size.toInt_lt
  induction rs generalizing st with
  | nil => simp [firstPiece] at hfirst
  | cons r rs ih =>
      cases r with
      | failed => simp [firstPiece] at hfirst
      | got n =>
          have hpos := (firstPiece_bounds hfirst).1
          have hlt : st.total < size := hst.lt_iff.mpr (by omega)
          rw [fill_got hlt]
          simp only [firstPiece] at hfirst
          split_ifs at hfirst with hn
          · have hcounts : (st.got (fun _ => base) source n).Counts := hst.got (by omega)
            obtain ⟨hmem, hall⟩ := ih hcounts (by simp [State.got, htaken, hn]) hfirst
            exact ⟨by simpa [State.got, hn, piece] using hmem, hall⟩
          · have hall : n.val = size.toInt.toNat := Option.some.inj hfirst
            have hcounts : (st.got (fun _ => base) source n).Counts := hst.got (by omega)
            rw [fill_of_ge (by rw [hcounts.lt_iff]; simp only [State.got]; omega)]
            simp [State.got, htaken, hall]

/-- **If there is something to take after the first piece**, the loop stores a later element over
the first one, or takes too much. -/
lemma fill_later (hst : st.Counts) (htaken : 0 < st.taken) (hlt : (st.taken : ℤ) < size.toInt)
    (henough : size.toInt ≤ st.taken + delivered rs) :
    (fill size (fun _ => base) source rs st).1 = .full ∧
        (∃ p, 0 < p ∧ (fill size (fun _ => base) source rs st).2.mem base = source p) ∨
      size.toInt < (fill size (fun _ => base) source rs st).2.taken := by
  have hsize := size.toInt_lt
  induction rs generalizing st with
  | nil => simp only [delivered] at henough; omega
  | cons r rs ih =>
      cases r with
      | failed => simp only [delivered] at henough; omega
      | got n =>
          simp only [delivered, Nat.cast_add] at henough
          rw [fill_got (hst.lt_iff.mpr hlt)]
          by_cases hmore : (st.taken + n : ℤ) < size.toInt
          · exact ih (hst.got (by omega)) (by simp only [State.got]; omega)
              (by simpa [State.got] using hmore) (by simp only [State.got]; omega)
          by_cases hwrap : st.taken + n < 2 ^ 31
          · -- the counter has reached the size, and this piece lies over the first one
            have hge : ¬ (st.got (fun _ => base) source n).total < size := by
              rw [(hst.got hwrap).lt_iff]
              simpa [State.got] using hmore
            rw [fill_of_ge hge]
            refine .inl ⟨rfl, st.taken, htaken, ?_⟩
            have hn : 0 < n.val := by omega
            simpa [State.got] using write_piece st.mem base source st.taken hn
          · right
            have hmono : st.taken + n ≤ _ :=
              fill_mono size (fun _ => base) source rs (st.got (fun _ => base) source n)
            omega

/-- **If the first piece is not all there is to take**, but enough comes after it, the same
happens. -/
lemma fill_overwrites (base : ℤ) (source : ℕ → β) (hst : st.Counts) (htaken : st.taken = 0)
    (hpos : 0 < size.toInt) (henough : size.toInt ≤ delivered rs)
    (hle : ∀ k, firstPiece rs = some k → (k : ℤ) < size.toInt) :
    (fill size (fun _ => base) source rs st).1 = .full ∧
        (∃ p, 0 < p ∧ (fill size (fun _ => base) source rs st).2.mem base = source p) ∨
      size.toInt < (fill size (fun _ => base) source rs st).2.taken := by
  have hsize := size.toInt_lt
  induction rs generalizing st with
  | nil => simp only [delivered] at henough; omega
  | cons r rs ih =>
      cases r with
      | failed => simp only [delivered] at henough; omega
      | got n =>
          rw [fill_got (hst.lt_iff.mpr (by omega))]
          simp only [delivered, Nat.cast_add] at henough
          simp only [firstPiece] at hle
          split_ifs at hle with hn
          · exact ih (hst.got (by omega)) (by simp [State.got, htaken, hn]) (by omega) hle
          · have hlt := hle n rfl
            exact fill_later (hst.got (by omega)) (by simp only [State.got]; omega)
              (by simp only [State.got]; omega) (by simp only [State.got]; omega)

end Overwrite

end Chunks
