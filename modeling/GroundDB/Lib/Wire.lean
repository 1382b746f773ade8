import Mathlib.Data.List.Induction
import Mathlib.Data.Nat.Digits.Defs

/-!
# Reading values off the front of a list of bytes

A message is written by putting the bytes of its fields one after another and read by a `Get`, which
takes fields off the front of what is left and fails when too little is left.

Two facts about a `Get` are composed along its binds.  `Parses g bs a`: in front of anything, the
bytes `bs` are read as `a` and nothing behind them is touched.  `Sized k g size`: a value that is
read accounts for all the bytes that were taken for it, `k` of them before `g` started.  The first
says that what was printed is read back, the second that nothing is read from bytes that are not
there.
-/

namespace Wire

variable {α β : Type}

/-! ## Integers -/

/-- The last `width` base-256 digits of `n`, the most significant one first. -/
def bigEndian : ℕ → ℕ → List UInt8
  | 0, _ => []
  | width + 1, n => bigEndian width (n / 256) ++ [UInt8.ofNat n]

/-- The number that base-256 digits stand for, the most significant one first. -/
def ofBigEndian (bs : List UInt8) : ℕ :=
  bs.foldl (fun n b => n * 256 + b.toNat) 0

@[simp] lemma length_bigEndian (width n : ℕ) : (bigEndian width n).length = width := by
  induction width generalizing n with
  | zero => rfl
  | succ width ih => simp [bigEndian, ih]

lemma ofBigEndian_bigEndian (width n : ℕ) :
    ofBigEndian (bigEndian width n) = n % 256 ^ width := by
  induction width generalizing n with
  | zero => simp [bigEndian, ofBigEndian, Nat.mod_one]
  | succ width ih =>
      have hdigits : ofBigEndian (bigEndian (width + 1) n)
          = ofBigEndian (bigEndian width (n / 256)) * 256 + n % 256 := by
        simp [ofBigEndian, bigEndian]
      rw [hdigits, ih, pow_succ', Nat.mod_mul]
      ring

lemma ofBigEndian_lt (bs : List UInt8) : ofBigEndian bs < 256 ^ bs.length := by
  induction bs using List.reverseRecOn with
  | nil => simp [ofBigEndian]
  | append_singleton bs b ih =>
      have hdigits : ofBigEndian (bs ++ [b]) = ofBigEndian bs * 256 + b.toNat := by
        simp [ofBigEndian]
      have hb : b.toNat < 256 := b.toNat_lt
      rw [hdigits, List.length_append, List.length_singleton, pow_succ]
      omega

lemma bigEndian_ofBigEndian (bs : List UInt8) : bigEndian bs.length (ofBigEndian bs) = bs := by
  induction bs using List.reverseRecOn with
  | nil => rfl
  | append_singleton bs b ih =>
      have hdigits : ofBigEndian (bs ++ [b]) = ofBigEndian bs * 256 + b.toNat := by
        simp [ofBigEndian]
      have hb : b.toNat < 256 := b.toNat_lt
      have hdiv : (ofBigEndian bs * 256 + b.toNat) / 256 = ofBigEndian bs := by omega
      have hlast : UInt8.ofNat (ofBigEndian bs * 256 + b.toNat) = b := by
        apply UInt8.toNat_inj.mp
        rw [UInt8.toNat_ofNat']
        omega
      rw [List.length_append, List.length_singleton, bigEndian, hdigits, hdiv, ih, hlast]

/-- The number that base-256 digits stand for, the least significant one first. -/
def ofLittleEndian (bs : List UInt8) : ℕ := ofBigEndian bs.reverse

lemma ofLittleEndian_lt (bs : List UInt8) : ofLittleEndian bs < 256 ^ bs.length := by
  simpa [ofLittleEndian] using ofBigEndian_lt bs.reverse

lemma ofLittleEndian_inj {bs cs : List UInt8} (hlen : bs.length = cs.length)
    (h : ofLittleEndian bs = ofLittleEndian cs) : bs = cs := by
  have hbs := bigEndian_ofBigEndian bs.reverse
  have hcs := bigEndian_ofBigEndian cs.reverse
  rw [ofLittleEndian, ofLittleEndian] at h
  rw [h, List.length_reverse, hlen, ← List.length_reverse, hcs] at hbs
  exact (List.reverse_inj.mp hbs).symm

/-! ## Reading -/

/-- A reader of values from the bytes that are left. -/
abbrev Get (α : Type) := StateT (List UInt8) Option α

/-- The next `n` bytes. -/
def getBytes (n : ℕ) : Get (List UInt8) :=
  fun bs => if n ≤ bs.length then some (bs.take n, bs.drop n) else none

/-- An integer of `width` bytes. -/
def getInt (width : ℕ) : Get ℕ := do
  let bs ← getBytes width
  pure (ofBigEndian bs)

/-- `n` values, one after another. -/
def getMany (g : Get α) : ℕ → Get (List α)
  | 0 => pure []
  | n + 1 => do
      let a ← g
      let as ← getMany g n
      pure (a :: as)

/-- In front of anything, `bs` is read as `a`. -/
def Parses (g : Get α) (bs : List UInt8) (a : α) : Prop :=
  ∀ rest, g (bs ++ rest) = some (a, rest)

lemma parses_pure (a : α) : Parses (pure a) [] a :=
  fun _ => rfl

lemma Parses.bind {g : Get α} {f : α → Get β} {bs cs : List UInt8} {a : α} {b : β}
    (hg : Parses g bs a) (hf : Parses (f a) cs b) : Parses (g >>= f) (bs ++ cs) b := by
  intro rest
  change (g (bs ++ cs ++ rest)).bind (fun x => f x.1 x.2) = some (b, rest)
  rw [List.append_assoc, hg, Option.bind_some]
  exact hf rest

/-- What is read last may be changed by a function. -/
lemma Parses.bind_pure {g : Get α} {f : α → β} {bs : List UInt8} {a : α} (hg : Parses g bs a) :
    Parses (g >>= fun x => pure (f x)) bs (f a) := by
  have h := hg.bind (f := fun x => pure (f x)) (parses_pure (f a))
  rwa [List.append_nil] at h

lemma parses_getBytes {n : ℕ} {bs : List UInt8} (hn : bs.length = n) :
    Parses (getBytes n) bs bs := by
  intro rest
  simp [getBytes, ← hn]

lemma parses_getInt {width n : ℕ} (hn : n < 256 ^ width) :
    Parses (getInt width) (bigEndian width n) n := by
  have hread := (parses_getBytes (length_bigEndian width n)).bind_pure (f := ofBigEndian)
  rwa [ofBigEndian_bigEndian, Nat.mod_eq_of_lt hn] at hread

lemma parses_getMany {g : Get α} {put : α → List UInt8} (hg : ∀ a, Parses g (put a) a)
    (as : List α) : Parses (getMany g as.length) (as.flatMap put) as := by
  induction as with
  | nil => exact parses_pure []
  | cons a as ih => exact (hg a).bind ih.bind_pure

/-! ## Sizes -/

/-- A value that `g` reads accounts for the bytes taken for it, `k` of them before. -/
def Sized (k : ℕ) (g : Get α) (size : α → ℕ) : Prop :=
  ∀ bs a rest, g bs = some (a, rest) → k + bs.length = size a + rest.length

lemma sized_pure {k : ℕ} {a : α} {size : α → ℕ} (hk : size a = k) : Sized k (pure a) size := by
  intro bs a' rest h
  have heq : some (a, bs) = some (a', rest) := h
  obtain ⟨rfl, rfl⟩ : a = a' ∧ bs = rest := by simpa using heq
  rw [hk]

lemma Sized.bind {k : ℕ} {g : Get α} {f : α → Get β} {s : α → ℕ} {size : β → ℕ}
    (hg : Sized 0 g s) (hf : ∀ a, Sized (k + s a) (f a) size) : Sized k (g >>= f) size := by
  intro bs b rest h
  change (g bs).bind (fun x => f x.1 x.2) = some (b, rest) at h
  obtain ⟨⟨a, mid⟩, ha, hb⟩ := Option.bind_eq_some_iff.mp h
  have hlen := hg bs a mid ha
  have hrest := hf a mid b rest hb
  omega

lemma sized_getBytes (n : ℕ) : Sized 0 (getBytes n) List.length := by
  intro bs a rest h
  simp only [getBytes] at h
  split at h
  case isTrue hn =>
    obtain ⟨rfl, rfl⟩ : bs.take n = a ∧ bs.drop n = rest := by simpa using h
    simp only [List.length_take, List.length_drop]
    omega
  case isFalse => cases h

lemma length_of_getBytes {n : ℕ} {bs a rest : List UInt8} (h : getBytes n bs = some (a, rest)) :
    a.length = n := by
  simp only [getBytes] at h
  split at h
  case isTrue hn =>
    obtain ⟨rfl, rfl⟩ : bs.take n = a ∧ bs.drop n = rest := by simpa using h
    simp [hn]
  case isFalse => cases h

lemma sized_getBytes_const (n : ℕ) : Sized 0 (getBytes n) fun _ => n := by
  intro bs a rest h
  have hlen := sized_getBytes n bs a rest h
  rwa [length_of_getBytes h] at hlen

lemma sized_getInt (width : ℕ) : Sized 0 (getInt width) fun _ => width :=
  (sized_getBytes_const width).bind fun _ => sized_pure (by simp)

lemma sized_getMany {g : Get α} {w : ℕ} (hg : Sized 0 g fun _ => w) (n : ℕ) :
    Sized 0 (getMany g n) fun as => w * as.length := by
  induction n with
  | zero => exact sized_pure rfl
  | succ n ih =>
      refine hg.bind fun a bs as rest h => ?_
      change (getMany g n bs).bind (fun x => some (a :: x.1, x.2)) = some (as, rest) at h
      obtain ⟨⟨tail, mid⟩, htail, heq⟩ := Option.bind_eq_some_iff.mp h
      obtain ⟨rfl, rfl⟩ : a :: tail = as ∧ mid = rest := by simpa using heq
      have hlen : 0 + bs.length = w * tail.length + mid.length := ih bs tail mid htail
      rw [List.length_cons, Nat.mul_succ]
      omega

/-! ## Values -/

/-- Every value that `g` reads satisfies `P`. -/
def Yields (g : Get α) (P : α → Prop) : Prop :=
  ∀ bs a rest, g bs = some (a, rest) → P a

lemma yields_pure {a : α} {P : α → Prop} (h : P a) : Yields (pure a) P := by
  intro bs a' rest hread
  have heq : some (a, bs) = some (a', rest) := hread
  obtain ⟨rfl, rfl⟩ : a = a' ∧ bs = rest := by simpa using heq
  exact h

lemma Yields.bind {g : Get α} {f : α → Get β} {P : α → Prop} {Q : β → Prop} (hg : Yields g P)
    (hf : ∀ a, P a → Yields (f a) Q) : Yields (g >>= f) Q := by
  intro bs b rest h
  change (g bs).bind (fun x => f x.1 x.2) = some (b, rest) at h
  obtain ⟨⟨a, mid⟩, ha, hb⟩ := Option.bind_eq_some_iff.mp h
  exact hf a (hg bs a mid ha) mid b rest hb

/-- Nothing need be known of a value that is passed over. -/
lemma Yields.skip {g : Get α} {f : α → Get β} {Q : β → Prop} (hf : ∀ a, Yields (f a) Q) :
    Yields (g >>= f) Q :=
  Yields.bind (P := fun _ => True) (fun _ _ _ _ => trivial) fun a _ => hf a

lemma yields_getInt (width : ℕ) : Yields (getInt width) fun n => n < 256 ^ width := by
  intro bs n rest h
  change (getBytes width bs).bind (fun x => some (ofBigEndian x.1, x.2)) = some (n, rest) at h
  obtain ⟨⟨digits, mid⟩, hdigits, heq⟩ := Option.bind_eq_some_iff.mp h
  obtain ⟨rfl, rfl⟩ : ofBigEndian digits = n ∧ mid = rest := by simpa using heq
  rw [← length_of_getBytes hdigits]
  exact ofBigEndian_lt digits

end Wire
