import Mathlib.Tactic

/-!
# Cells of a memory

A memory is a function from addresses to cells.  `write` stores a list of values into consecutive
cells.  `SameOutside addr n` says that two memories differ at most in the `n` cells from `addr` on,
which is what a routine that is given an array of `n` cells may do.

`piece source pos n` are `n` elements of a source that is numbered from zero: a stream, a queue or
an array.
-/

namespace Memory

variable {β : Type*} {mem mem' : ℤ → β} {addr : ℤ} {bs : List β} {n : ℕ}

/-- Store the values `bs` one after another, the first one at `addr`. -/
def write (mem : ℤ → β) (addr : ℤ) (bs : List β) : ℤ → β :=
  fun a => if addr ≤ a then (bs[(a - addr).toNat]?).getD (mem a) else mem a

@[simp] lemma write_nil : write mem addr [] = mem := by
  funext a
  simp [write]

lemma write_inside (mem : ℤ → β) (addr : ℤ) {i : ℕ} (hi : i < bs.length) :
    write mem addr bs (addr + i) = bs[i] := by
  simp [write, hi]

lemma write_outside {a : ℤ} (ha : a < addr ∨ addr + bs.length ≤ a) :
    write mem addr bs a = mem a := by
  unfold write
  split_ifs with hle
  · rw [List.getElem?_eq_none (by omega), Option.getD_none]
  · rfl

lemma write_cases (mem : ℤ → β) (addr : ℤ) (bs : List β) (a : ℤ) :
    write mem addr bs a = mem a ∨ write mem addr bs a ∈ bs := by
  by_cases hin : addr ≤ a ∧ a < addr + bs.length
  · have hlt : (a - addr).toNat < bs.length := by omega
    have hcell := write_inside mem addr hlt
    rw [show addr + ((a - addr).toNat : ℤ) = a by omega] at hcell
    exact .inr (hcell ▸ List.getElem_mem hlt)
  · exact .inl (write_outside (by omega))

lemma write_write (mem : ℤ → β) (addr : ℤ) (xs ys : List β) :
    write (write mem addr xs) (addr + xs.length) ys = write mem addr (xs ++ ys) := by
  funext a
  by_cases hxs : a < addr + xs.length
  · rw [write_outside (.inl hxs)]
    by_cases hle : addr ≤ a
    · have hlt : (a - addr).toNat < xs.length := by omega
      simp [write, hle, hlt, List.getElem?_append_left hlt]
    · rw [write_outside (by omega), write_outside (by omega)]
  · have hle : addr ≤ a := by omega
    have hge : xs.length ≤ (a - addr).toNat := by omega
    have hsub : (a - (addr + xs.length)).toNat = (a - addr).toNat - xs.length := by omega
    simp only [write, if_pos (not_lt.mp hxs), if_pos hle, List.getElem?_append_right hge, hsub,
      List.getElem?_eq_none hge, Option.getD_none]

/-- The `n` cells from `addr` on. -/
def slice (mem : ℤ → β) (addr : ℤ) (n : ℕ) : List β :=
  (List.range n).map fun i : ℕ => mem (addr + i)

@[simp] lemma length_slice (mem : ℤ → β) (addr : ℤ) (n : ℕ) : (slice mem addr n).length = n := by
  simp [slice]

lemma slice_add (mem : ℤ → β) (addr : ℤ) (m n : ℕ) :
    slice mem addr (m + n) = slice mem addr m ++ slice mem (addr + m) n := by
  simp [slice, List.range_add, Function.comp_def, add_assoc]

lemma slice_write (mem : ℤ → β) (addr : ℤ) (bs : List β) :
    slice (write mem addr bs) addr bs.length = bs := by
  refine List.ext_getElem (by simp) fun i _ hi => ?_
  simp only [slice, List.getElem_map, List.getElem_range]
  exact write_inside mem addr hi

/-! ## Pieces of a source -/

/-- The `n` elements of the source from `pos` on. -/
def piece (source : ℕ → β) (pos n : ℕ) : List β := (List.range n).map fun i => source (pos + i)

@[simp] lemma length_piece (source : ℕ → β) (pos n : ℕ) : (piece source pos n).length = n := by
  simp [piece]

lemma piece_add (source : ℕ → β) (pos m n : ℕ) :
    piece source pos (m + n) = piece source pos m ++ piece source (pos + m) n := by
  simp [piece, List.range_add, Nat.add_assoc]

lemma piece_min_append (source : ℕ → β) (pos m n : ℕ) :
    piece source pos (min m n) ++ piece source (pos + m) (n - m) = piece source pos n := by
  rcases Nat.le_total m n with h | h
  · rw [Nat.min_eq_left h, ← piece_add, Nat.add_sub_cancel' h]
  · rw [Nat.min_eq_right h, Nat.sub_eq_zero_of_le h]
    exact List.append_nil _

lemma write_piece (mem : ℤ → β) (addr : ℤ) (source : ℕ → β) (pos : ℕ) {n i : ℕ} (hi : i < n) :
    write mem addr (piece source pos n) (addr + i) = source (pos + i) := by
  rw [write_inside mem addr (by rwa [length_piece])]
  simp [piece]

lemma slice_write_piece (mem : ℤ → β) (addr : ℤ) (source : ℕ → β) (pos : ℕ) {m n : ℕ}
    (hm : m ≤ n) : slice (write mem addr (piece source pos n)) addr m = piece source pos m := by
  refine List.map_congr_left fun i hi => ?_
  exact write_piece mem addr source pos ((List.mem_range.mp hi).trans_le hm)

/-! ## Frames -/

/-- The memories differ at most in the `n` cells from `addr` on. -/
def SameOutside (addr : ℤ) (n : ℕ) (mem mem' : ℤ → β) : Prop :=
  ∀ a, a < addr ∨ addr + n ≤ a → mem' a = mem a

lemma SameOutside.refl : SameOutside addr n mem mem := fun _ _ => rfl

/-- Storing at most `n` values from `addr` on. -/
lemma SameOutside.write (h : SameOutside addr n mem mem') (hlen : bs.length ≤ n) :
    SameOutside addr n mem (write mem' addr bs) := by
  intro a ha
  rw [write_outside (by omega)]
  exact h a ha

/-- If a piece of any source may be stored, it fits. -/
lemma length_le_of_sameOutside {a b : β} (hne : a ≠ b) {pos m : ℕ}
    (h : SameOutside addr n (fun _ => a) (Memory.write (fun _ => a) addr
      (piece (fun _ => b) pos m))) : m ≤ n := by
  by_contra hlt
  have hcell := h (addr + n) (by omega)
  rw [write_piece _ addr _ pos (not_le.mp hlt)] at hcell
  exact hne hcell.symm

end Memory
