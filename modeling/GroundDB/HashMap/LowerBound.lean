import GroundDB.HashMap.Types

/-!
# `LsnListFindLowerBound`

The binary search the map uses inside one entry array.  On a strictly increasing array it returns
the index of the last entry at most the target, or `-1`: in other words, the number of entries at
most the target, minus one (`lsnListFindLowerBound_eq`).  In this form the boundary cases need no
splitting later: the entries from the index after it on are exactly those above the target
(`drop_after_lowerBound`).
-/

namespace GroundDB

/-- The search loop.  The fuel is the number of iterations allowed; `none` is an access outside
the array or fuel running out, neither of which happens (`lowerBoundLoop_eq`). -/
def lowerBoundLoop (targetLsn : ℕ) (entryList : List LsnEntry) : ℕ → ℕ → ℕ → Option ℕ
  | 0, smallSide, largeSide => if largeSide = smallSide then some largeSide else none
  | fuel + 1, smallSide, largeSide =>
      if largeSide = smallSide then some largeSide
      else do
        let mid := (largeSide + smallSide + 1) / 2
        let e ← entryList[mid]?
        let (smallSide, largeSide) :=
          if targetLsn < e.lsn then (smallSide, mid - 1) else (mid, largeSide)
        let (smallSide, largeSide) :=
          if e.lsn = targetLsn then (mid, mid) else (smallSide, largeSide)
        lowerBoundLoop targetLsn entryList fuel smallSide largeSide

/-- `LsnListFindLowerBound`, over the entries in use. -/
def lsnListFindLowerBound (targetLsn : ℕ) (entryList : List LsnEntry) : Option ℤ :=
  if entryList.length = 0 then some (-1)
  else do
    let largeSide ← lowerBoundLoop targetLsn entryList entryList.length 0 (entryList.length - 1)
    let e ← entryList[largeSide]?
    if e.lsn > targetLsn then some (-1) else some largeSide

/-- How many entries are at most `t`. -/
def countLe (t : ℕ) (es : List LsnEntry) : ℕ := (es.filter fun e => e.lsn ≤ t).length

lemma countLe_le_length (t : ℕ) (es : List LsnEntry) : countLe t es ≤ es.length :=
  List.length_filter_le _ _

variable {es : List LsnEntry} {t : ℕ}

/-- In a sorted array the entries at most `t` are those at the indices below `countLe t`. -/
lemma getElem_le_iff_lt_countLe (hs : (entryLsns es).Pairwise (· < ·)) {i : ℕ} {e : LsnEntry}
    (hi : es[i]? = some e) : e.lsn ≤ t ↔ i < countLe t es := by
  have hsplit := filter_append_filter_of_sorted LsnEntry.lsn hs t
  rw [← hsplit] at hi
  by_cases hlt : i < countLe t es
  · rw [List.getElem?_append_left hlt] at hi
    have hmem := List.mem_of_getElem? hi
    rw [List.mem_filter] at hmem
    simpa [hlt] using hmem.2
  · rw [List.getElem?_append_right (Nat.le_of_not_lt hlt)] at hi
    have hmem := List.mem_of_getElem? hi
    rw [List.mem_filter] at hmem
    have hgt : t < e.lsn := by simpa using hmem.2
    simp only [hlt, iff_false]
    omega

lemma countLe_of_getElem_eq (hs : (entryLsns es).Pairwise (· < ·)) {i : ℕ} {e : LsnEntry}
    (hi : es[i]? = some e) (he : e.lsn = t) : countLe t es = i + 1 := by
  have hlow : i < countLe t es := (getElem_le_iff_lt_countLe hs hi).mp he.le
  have hlen := countLe_le_length t es
  by_contra hne
  have hlt : i + 1 < es.length := by omega
  obtain ⟨f, hf⟩ : ∃ f, es[i + 1]? = some f := ⟨_, List.getElem?_eq_getElem hlt⟩
  have hle : f.lsn ≤ t := (getElem_le_iff_lt_countLe hs hf).mpr (by omega)
  have hlt' : e.lsn < f.lsn := by
    rw [List.getElem?_eq_getElem (by omega)] at hi hf
    have := List.pairwise_iff_getElem.mp hs i (i + 1) (by simp [entryLsns]; omega)
      (by simpa [entryLsns] using hlt) (by omega)
    simpa [entryLsns, Option.some.inj hi, Option.some.inj hf] using this
  omega

/-- The loop closes in on the last entry at most the target: it stays inside
`[smallSide, largeSide]` at every step. -/
lemma lowerBoundLoop_eq (hs : (entryLsns es).Pairwise (· < ·)) (fuel : ℕ) :
    ∀ small large : ℕ, large < es.length → large - small ≤ fuel →
      small ≤ countLe t es - 1 → countLe t es - 1 ≤ large →
      lowerBoundLoop t es fuel small large = some (countLe t es - 1) := by
  induction fuel with
  | zero =>
      intro small large _ hfuel hlo hhi
      have heq : large = small := by omega
      rw [lowerBoundLoop, if_pos heq]
      exact congrArg some (by omega)
  | succ fuel ih =>
      intro small large hlen hfuel hlo hhi
      rw [lowerBoundLoop]
      split_ifs with heq
      · exact congrArg some (by omega)
      have hmid : (large + small + 1) / 2 < es.length := by omega
      generalize hm : (large + small + 1) / 2 = mid at hmid ⊢
      obtain ⟨e, he⟩ : ∃ e, es[mid]? = some e := ⟨_, List.getElem?_eq_getElem hmid⟩
      have hiff := getElem_le_iff_lt_countLe (t := t) hs he
      simp only [he, Option.bind_eq_bind, Option.bind_some]
      by_cases heqt : e.lsn = t
      · have hc := countLe_of_getElem_eq hs he heqt
        simp only [heqt, lt_irrefl, if_true, if_false]
        exact ih mid mid hmid (by omega) (by omega) (by omega)
      · by_cases hlt : t < e.lsn
        · have hnot : ¬ mid < countLe t es := fun h => absurd (hiff.mpr h) (by omega)
          simp only [hlt, heqt, if_true, if_false]
          exact ih small (mid - 1) (by omega) (by omega) hlo (by omega)
        · have hyes : mid < countLe t es := hiff.mp (by omega)
          simp only [hlt, heqt, if_false]
          exact ih mid large hlen (by omega) (by omega) hhi

/-- **The search is exact**: on a strictly increasing array it returns the index of the last entry
at most the target, `-1` when there is none. -/
theorem lsnListFindLowerBound_eq (hs : (entryLsns es).Pairwise (· < ·)) :
    lsnListFindLowerBound t es = some ((countLe t es : ℤ) - 1) := by
  unfold lsnListFindLowerBound
  have hle := countLe_le_length t es
  split_ifs with hnil
  · have hzero : countLe t es = 0 := by omega
    rw [hzero]
    rfl
  have hloop := lowerBoundLoop_eq (t := t) hs es.length 0 (es.length - 1) (by omega) (by omega)
    (by omega) (by omega)
  have hin : countLe t es - 1 < es.length := by omega
  obtain ⟨e, he⟩ : ∃ e, es[countLe t es - 1]? = some e := ⟨_, List.getElem?_eq_getElem hin⟩
  have hiff := getElem_le_iff_lt_countLe (t := t) hs he
  simp only [hloop, he, Option.bind_eq_bind, Option.bind_some]
  split_ifs with hgt
  · have hzero : countLe t es = 0 := by
      by_contra hpos
      exact absurd (hiff.mpr (by omega)) (by omega)
    rw [hzero]
    rfl
  · have hpos : 0 < countLe t es := by
      have := hiff.mp (by omega)
      omega
    refine congrArg some ?_
    omega

/-- The entries after the index returned are exactly those above the target. -/
lemma drop_after_lowerBound (hs : (entryLsns es).Pairwise (· < ·)) :
    es.drop ((countLe t es : ℤ) - 1 + 1).toNat = es.filter fun e => t < e.lsn := by
  rw [show ((countLe t es : ℤ) - 1 + 1).toNat = countLe t es by omega]
  exact drop_filter_length_of_sorted LsnEntry.lsn hs t

example : lsnListFindLowerBound 25 [⟨10, none⟩, ⟨20, none⟩, ⟨30, none⟩] = some 1 := by decide

end GroundDB
