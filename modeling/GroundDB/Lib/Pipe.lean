import Mathlib.Data.List.Basic
import Mathlib.Tactic.Cases

/-!
# Read and write calls on a pipe

A pipe is a first-in first-out stream.  A `read` may find nothing, or return fewer elements than it
asks for; a `write` may take fewer than it is given.  What the system answers is given by a list of
calls: the next call of a loop does what the head of the list says.  A call that may move up to
`k + 1` elements moves as many as it can within that, so every list of calls is possible and every
way to split the stream into reads comes from some list.

`Delivers calls n` says that the reads do not fail and that enough of them return something to empty
a pipe of `n` elements.  It is kept along a loop (`Delivers.read`), so a reading loop is proved by
one induction on the calls.
-/

namespace Pipe

variable {β : Type*}

/-! ## Reading -/

/-- What one `read` call does: it finds nothing yet, fails, finds the other end closed, or returns
up to `k + 1` elements. -/
inductive ReadCall
  | again
  | failed
  | closed
  | upTo (k : ℕ)
deriving DecidableEq, Repr

/-- What a `read` call answers. -/
inductive ReadAnswer (β : Type*)
  | again
  | failed
  | eof
  | data (bs : List β)
deriving Repr

/-- `read` of at most `count` elements from a pipe, and what stays in the pipe. -/
def read (content : List β) (count : ℕ) : ReadCall → ReadAnswer β × List β
  | .again => (.again, content)
  | .failed => (.failed, content)
  | .closed => (.eof, content)
  | .upTo k =>
      if content = [] then (.again, [])
      else (.data (content.take (min (k + 1) count)), content.drop (min (k + 1) count))

/-- A call that returns something if there is something. -/
def ReadCall.returns : ReadCall → Bool
  | .upTo _ => true
  | _ => false

/-- No read fails, and `n` of them return something. -/
def Delivers (calls : List ReadCall) (n : ℕ) : Prop :=
  (∀ call ∈ calls, call = .again ∨ call.returns) ∧ n ≤ calls.countP ReadCall.returns

instance (calls : List ReadCall) (n : ℕ) : Decidable (Delivers calls n) :=
  inferInstanceAs (Decidable (_ ∧ _))

/-- The first call either finds nothing, or returns something; what is left is still delivered. -/
lemma Delivers.read {call : ReadCall} {calls : List ReadCall} {content : List β} {count : ℕ}
    (h : Delivers (call :: calls) content.length) (hcount : 0 < count) :
    (read content count call = (.again, content) ∧ Delivers calls content.length) ∨
    (∃ bs rest, content = bs ++ rest ∧ bs ≠ [] ∧ bs.length ≤ count ∧
      read content count call = (.data bs, rest) ∧ Delivers calls rest.length) := by
  obtain ⟨hkind, hmany⟩ := h
  have htail : ∀ c ∈ calls, c = .again ∨ c.returns :=
    fun c hc => hkind c (List.mem_cons_of_mem _ hc)
  rw [List.countP_cons] at hmany
  match call, hkind call List.mem_cons_self with
  | .again, _ => exact .inl ⟨rfl, htail, by simpa [ReadCall.returns] using hmany⟩
  | .upTo k, _ =>
      simp only [ReadCall.returns, if_true] at hmany
      by_cases hnil : content = []
      · subst hnil
        exact .inl ⟨by simp [Pipe.read], htail, Nat.zero_le _⟩
      · refine .inr ⟨content.take (min (k + 1) count), content.drop (min (k + 1) count),
          (List.take_append_drop _ _).symm, ?_, ?_, by simp [Pipe.read, hnil], htail, ?_⟩
        · simp only [ne_eq, List.take_eq_nil_iff, hnil, or_false]
          omega
        · rw [List.length_take]
          omega
        · rw [List.length_drop]
          omega

/-! ## Writing -/

/-- What one `write` call does: it fails, or takes up to `k + 1` elements. -/
inductive WriteCall
  | failed
  | upTo (k : ℕ)
deriving DecidableEq, Repr

/-- No write fails, and there are `n` of them. -/
def Accepts (calls : List WriteCall) (n : ℕ) : Prop :=
  WriteCall.failed ∉ calls ∧ n ≤ calls.length

instance (calls : List WriteCall) (n : ℕ) : Decidable (Accepts calls n) :=
  inferInstanceAs (Decidable (_ ∧ _))

lemma Accepts.tail {call : WriteCall} {calls : List WriteCall} {n : ℕ}
    (h : Accepts (call :: calls) (n + 1)) : Accepts calls n :=
  ⟨fun hmem => h.1 (List.mem_cons_of_mem _ hmem), Nat.le_of_succ_le_succ h.2⟩

lemma Accepts.mono {calls : List WriteCall} {m n : ℕ} (h : Accepts calls n) (hm : m ≤ n) :
    Accepts calls m :=
  ⟨h.1, Nat.le_trans hm h.2⟩

end Pipe
