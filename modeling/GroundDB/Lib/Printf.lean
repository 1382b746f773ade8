import Mathlib.Tactic

/-!
# Printed numbers and the fields of a key

A format is a list of pieces: texts and conversions of machine integers.  `snprintf` prints the
pieces one after another and cuts off what does not fit the buffer.  Each piece has a greatest
width, so that one can tell from the format alone whether something may be cut off
(`snprintf_eq_printed`).

Numbers are known from their digits.  Fields that are separated by underscores can be read back if
none of them contains one (`separated_injective`), which numbers do not.
-/

namespace Printf

/-- A piece of a format. -/
inductive Piece
  | text (s : String)
  | lu (n : UInt64)
  | u (n : UInt32)
  | d (n : Int32)
deriving DecidableEq

/-- A number in decimal digits. -/
def decimal (n : ℕ) : List Char := Nat.toDigits 10 n

/-- A number with a sign if it is negative. -/
def signedDecimal (z : ℤ) : List Char :=
  if z < 0 then '-' :: decimal z.natAbs else decimal z.natAbs

/-- What a piece prints. -/
def Piece.print : Piece → List Char
  | .text s => s.toList
  | .lu n => decimal n.toNat
  | .u n => decimal n.toNat
  | .d n => signedDecimal n.toInt

/-- What a format prints. -/
def printed (format : List Piece) : List Char := format.flatMap Piece.print

/-- The string that `snprintf` leaves in a buffer of `size` characters, one of which is the final
zero. -/
def snprintf (size : ℕ) (format : List Piece) : List Char := (printed format).take (size - 1)

/-! ## Widths -/

/-- The most characters that a piece can print. -/
def Piece.width : Piece → ℕ
  | .text s => s.toList.length
  | .lu _ => 20
  | .u _ => 10
  | .d _ => 11

lemma length_decimal_le {n k : ℕ} (hk : 0 < k) (h : n < 10 ^ k) : (decimal n).length ≤ k :=
  (Nat.length_toDigits_le_iff (by decide) hk).mpr h

lemma Piece.length_print_le (p : Piece) : p.print.length ≤ p.width := by
  cases p with
  | text s => exact Nat.le_refl _
  | lu n => exact length_decimal_le (k := 20) (by decide) (n.toNat_lt.trans (by decide))
  | u n => exact length_decimal_le (k := 10) (by decide) (n.toNat_lt.trans (by decide))
  | d n =>
      have hle := n.le_toInt
      have hlt := n.toInt_lt
      have hdigits : (decimal n.toInt.natAbs).length ≤ 10 :=
        length_decimal_le (by decide) (by omega)
      simp only [print, signedDecimal, width]
      split_ifs
      · exact Nat.succ_le_succ hdigits
      · exact hdigits.trans (by decide)

lemma length_printed_le (format : List Piece) :
    (printed format).length ≤ (format.map Piece.width).sum := by
  induction format with
  | nil => exact Nat.le_refl _
  | cons p format ih =>
      have hp := p.length_print_le
      simp only [printed, List.flatMap_cons, List.length_append, List.map_cons, List.sum_cons]
      exact Nat.add_le_add hp ih

/-- **Nothing is cut off** if the widths add up to less than the size of the buffer. -/
lemma snprintf_eq_printed {size : ℕ} {format : List Piece}
    (h : (format.map Piece.width).sum < size) : snprintf size format = printed format := by
  have hle := length_printed_le format
  exact List.take_of_length_le (by omega)

/-! ## Reading back -/

lemma decimal_injective : Function.Injective decimal :=
  Function.LeftInverse.injective (g := fun cs => Nat.ofDigitChars 10 cs 0) fun _ =>
    Nat.ofDigitChars_ten_toDigits

lemma not_mem_decimal {c : Char} (hc : c.isDigit = false) (n : ℕ) : c ∉ decimal n := by
  intro hmem
  have hdigit := Nat.isDigit_of_mem_toDigits (by decide) (by decide) hmem
  rw [hc] at hdigit
  cases hdigit

lemma underscore_not_mem_decimal (n : ℕ) : '_' ∉ decimal n := not_mem_decimal rfl n

lemma underscore_not_mem_signedDecimal (z : ℤ) : '_' ∉ signedDecimal z := by
  unfold signedDecimal
  split_ifs
  · simp [underscore_not_mem_decimal]
  · exact underscore_not_mem_decimal _

lemma signedDecimal_injective : Function.Injective signedDecimal := by
  intro z w h
  have hsign (n m : ℕ) : '-' :: decimal n ≠ decimal m := by
    intro heq
    exact not_mem_decimal (c := '-') rfl m (heq ▸ List.mem_cons_self)
  unfold signedDecimal at h
  split_ifs at h with hz hw hw
  · have habs := decimal_injective (List.cons_inj_right _ |>.mp h)
    omega
  · exact absurd h (hsign _ _)
  · exact absurd h.symm (hsign _ _)
  · have habs := decimal_injective h
    omega

/-- Fields with underscores between them. -/
def separated (fields : List (List Char)) : List Char := ['_'].intercalate fields

/-- **Fields without underscores can be read back.** -/
lemma separated_injective {fs gs : List (List Char)} (hfs : fs ≠ []) (hgs : gs ≠ [])
    (hf : ∀ f ∈ fs, '_' ∉ f) (hg : ∀ g ∈ gs, '_' ∉ g) (h : separated fs = separated gs) :
    fs = gs := by
  rw [← List.splitOn_intercalate '_' hf hfs, ← List.splitOn_intercalate '_' hg hgs]
  exact congrArg _ h

end Printf
