import Mathlib.Tactic

/-!
# Messages received into a ring of posted buffers

A receiver posts `n` buffers in order.  Each message that arrives is put into the buffer that was
posted first, and its arrival is counted.  The receiver takes a message from the buffer at its own
position when an arrival was counted, posts the buffer again and moves on to the next one.  A
buffer keeps what it held until another message arrives in it.

`Ring.Tracks msgs k r` says that `k` of the messages `msgs` were taken, in the state `r`; the next
one taken is the `k`-th (`Tracks.take`).
-/

namespace PostedRing

open Function

variable {α : Type*} {n : ℕ}

/-- The messages on their way, the posted buffers in order, what the buffers hold, the arrivals
that were not taken, and the position of the receiver. -/
structure Ring (α : Type*) (n : ℕ) where
  incoming : List α
  posted : List ℕ
  cells : ℕ → Option α
  completed : ℕ
  position : ℕ

namespace Ring

/-- All buffers are posted. -/
def start (n : ℕ) (msgs : List α) : Ring α n :=
  { incoming := msgs, posted := List.range n, cells := fun _ => none, completed := 0,
    position := 0 }

/-- A message arrives. -/
def arrive (r : Ring α n) : Option (Ring α n) :=
  match r.incoming, r.posted with
  | m :: rest, b :: bs =>
      some { r with incoming := rest, posted := bs, cells := update r.cells b (some m)
                    completed := r.completed + 1 }
  | _, _ => none

/-- The receiver takes a message. -/
def take (r : Ring α n) : Option (α × Ring α n) :=
  if r.completed = 0 then none
  else (r.cells r.position).map fun m =>
    (m, { r with posted := r.posted ++ [r.position], completed := r.completed - 1
                 position := if r.position = n - 1 then 0 else r.position + 1 })

/-- `k` messages were taken and `a` have arrived. -/
structure Tracks (msgs : List α) (k a : ℕ) (r : Ring α n) : Prop where
  incoming : r.incoming = msgs.drop a
  taken : k ≤ a
  arrived : a ≤ msgs.length
  posted : r.posted = (List.range (k + n - a)).map fun j => (a + j) % n
  room : a ≤ k + n
  cells : ∀ j, k ≤ j → j < a → r.cells (j % n) = msgs[j]?
  completed : r.completed = a - k
  position : r.position = k % n

variable {msgs : List α} {k a : ℕ} {r r' : Ring α n} {m : α}

lemma tracks_start (n : ℕ) (msgs : List α) : Tracks msgs 0 0 (start n msgs) := by
  refine ⟨rfl, le_rfl, Nat.zero_le _, ?_, Nat.zero_le _, ?_, rfl, (Nat.zero_mod n).symm⟩
  · have hsame : (List.range n).map (fun j => (0 + j) % n) = (List.range n).map id := by
      refine List.map_congr_left fun j hj => ?_
      rw [Nat.zero_add]
      exact Nat.mod_eq_of_lt (List.mem_range.mp hj)
    rw [Nat.zero_add, Nat.sub_zero, hsame, List.map_id]
    rfl
  · intro j _ hj
    exact absurd hj (Nat.not_lt_zero j)

/-- Numbers less than `n` apart have different buffers. -/
lemma mod_ne_of_lt {i j : ℕ} (hij : i < j) (hn : j < i + n) : i % n ≠ j % n := by
  intro heq
  have hdvd : n ∣ j - i := (Nat.modEq_iff_dvd' hij.le).mp heq
  exact absurd (Nat.le_of_dvd (by omega) hdvd) (by omega)

lemma Tracks.arrive (ht : Tracks msgs k a r) (hs : r.arrive = some r') :
    Tracks msgs k (a + 1) r' := by
  rw [Ring.arrive] at hs
  split at hs
  next m rest b bs hin hposted =>
    obtain rfl := Option.some.inj hs
    have hlt : a < msgs.length := by
      by_contra hge
      rw [ht.incoming, List.drop_of_length_le (not_lt.mp hge)] at hin
      cases hin
    have hm : msgs[a]? = some m := by
      have hhead := congrArg List.head? (ht.incoming.symm.trans hin)
      rw [List.head?_drop] at hhead
      simpa using hhead
    have hrest : rest = msgs.drop (a + 1) := by
      have htail := congrArg List.tail (ht.incoming.symm.trans hin)
      rw [List.tail_drop] at htail
      exact htail.symm
    -- a buffer is posted, and the first one is the one of the message that arrives
    obtain ⟨q, hq⟩ : ∃ q, k + n - a = q + 1 := by
      refine Nat.exists_eq_succ_of_ne_zero fun hz => ?_
      rw [ht.posted, hz] at hposted
      cases hposted
    have hcons : b = a % n ∧ bs = (List.range q).map fun j => (a + 1 + j) % n := by
      rw [ht.posted, hq, List.range_succ_eq_map, List.map_cons, List.map_map] at hposted
      obtain ⟨hb, hbs⟩ := List.cons.inj hposted
      refine ⟨hb.symm, ?_⟩
      rw [← hbs]
      refine List.map_congr_left fun j _ => ?_
      simp only [Function.comp_apply, Nat.succ_eq_add_one]
      congr 1
      omega
    have htaken := ht.taken
    refine ⟨hrest, by omega, hlt, ?_, by omega, ?_, ?_, ht.position⟩
    · have hlen : k + n - (a + 1) = q := by omega
      rw [hlen]
      exact hcons.2
    · intro j hk hj
      show update r.cells b (some m) (j % n) = msgs[j]?
      rw [hcons.1]
      by_cases hja : j = a
      · rw [hja, update_self, hm]
      · have hlt' : j < a := by omega
        rw [update_of_ne (mod_ne_of_lt hlt' (by omega))]
        exact ht.cells j hk hlt'
    · have := ht.completed
      simp only
      omega
  next => cases hs

/-- **The next message taken** is the next one of the messages. -/
lemma Tracks.take (hn : 0 < n) (ht : Tracks msgs k a r) (hs : r.take = some (m, r')) :
    msgs[k]? = some m ∧ Tracks msgs (k + 1) a r' := by
  rw [Ring.take] at hs
  split at hs
  next => cases hs
  next hne =>
    obtain ⟨m', hm', heq⟩ := Option.map_eq_some_iff.mp hs
    obtain ⟨rfl, rfl⟩ := Prod.mk.inj heq
    have htaken := ht.taken
    have hcomp := ht.completed
    have hroom := ht.room
    have hlt : k < a := by omega
    rw [ht.position, ht.cells k le_rfl hlt] at hm'
    refine ⟨hm', ht.incoming, hlt, ht.arrived, ?_, by omega, ?_, ?_, ?_⟩
    · have hlen : k + 1 + n - a = (k + n - a) + 1 := by omega
      have hlast : (a + (k + n - a)) % n = k % n := by
        have hsum : a + (k + n - a) = k + n := by omega
        rw [hsum, Nat.add_mod_right]
      rw [hlen, List.range_succ, List.map_append, List.map_singleton, hlast]
      simp only [ht.posted, ht.position]
    · intro j hk hj
      exact ht.cells j (by omega) hj
    · simp only
      omega
    · simp only [ht.position]
      have hmod := Nat.mod_lt k hn
      have hstep : (k + 1) % n = (k % n + 1) % n := by rw [Nat.mod_add_mod]
      rw [hstep]
      split
      next hlast => rw [hlast, Nat.sub_add_cancel hn, Nat.mod_self]
      next hlast =>
        have hnext : k % n + 1 < n := by omega
        rw [Nat.mod_eq_of_lt hnext]

end Ring

end PostedRing
