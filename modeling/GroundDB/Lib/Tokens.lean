import Mathlib.Tactic

/-!
# Tokens that are held or free

A set of tokens is handed out from a free list to holders, each of which holds at most one token.
`own h` is the token of the holder `h`, if it has one.

`Exclusive own free` says that no token is in two places: no two holders have the same token, and
what a holder has is not free.  `Covers own free p` says that the token `p` is somewhere: free, or
with a holder.  The lemmas say what keeps them when holders give up their tokens, when a holder
takes the first free token, and when a holder takes over the token of another one that gives its
own up.
-/

namespace Tokens

variable {H P : Type*}

/-- No token is in two places. -/
structure Exclusive (own : H → Option P) (free : List P) : Prop where
  inj : ∀ h h' p, own h = some p → own h' = some p → h = h'
  notFree : ∀ h p, own h = some p → p ∉ free
  nodup : free.Nodup

/-- The token is free or with a holder. -/
def Covers (own : H → Option P) (free : List P) (p : P) : Prop := p ∈ free ∨ ∃ h, own h = some p

variable {own own' : H → Option P} {free : List P} {e : H} {p : P}

/-! ## Giving up tokens -/

lemma Exclusive.drop (hx : Exclusive own free) (h : ∀ x, own' x = own x ∨ own' x = none) :
    Exclusive own' free := by
  have hback : ∀ x p, own' x = some p → own x = some p := by
    intro x p hp
    rcases h x with hsame | hnone
    · exact hsame ▸ hp
    · rw [hnone] at hp
      cases hp
  exact ⟨fun a b p ha hb => hx.inj a b p (hback a p ha) (hback b p hb),
    fun a p ha => hx.notFree a p (hback a p ha), hx.nodup⟩

lemma Covers.keep (hc : Covers own free p) (h : ∀ x, own x = some p → own' x = some p) :
    Covers own' free p :=
  hc.imp id fun ⟨x, hx⟩ => ⟨x, h x hx⟩

lemma Exclusive.lost (hx : Exclusive own free) (h : ∀ x, own' x = own x ∨ own' x = none)
    (he : own e = some p) (hgone : own' e = none) : ¬Covers own' free p := by
  rintro (hfree | ⟨x, hp⟩)
  · exact hx.notFree e p he hfree
  · rcases h x with hsame | hnone
    · rw [hsame] at hp
      rw [hx.inj x e p hp he, he, hgone] at hsame
      cases hsame
    · rw [hnone] at hp
      cases hp

/-! ## Taking a free token -/

lemma Exclusive.take (hx : Exclusive own free) (hother : ∀ x, x ≠ e → own' x = own x)
    (he : own' e = free.head?) : Exclusive own' free.tail := by
  have hfirst : ∀ p, free.head? = some p → p ∉ free.tail ∧ p ∈ free := by
    intro p hp
    obtain ⟨l, rfl⟩ := List.head?_eq_some_iff.mp hp
    exact ⟨(List.nodup_cons.mp hx.nodup).1, List.mem_cons_self⟩
  refine ⟨?_, ?_, hx.nodup.sublist (List.tail_sublist free)⟩
  · intro a b p ha hb
    by_cases hae : a = e
    · by_cases hbe : b = e
      · rw [hae, hbe]
      · rw [hae, he] at ha
        rw [hother b hbe] at hb
        exact absurd (hfirst p ha).2 (hx.notFree b p hb)
    · rw [hother a hae] at ha
      by_cases hbe : b = e
      · rw [hbe, he] at hb
        exact absurd (hfirst p hb).2 (hx.notFree a p ha)
      · rw [hother b hbe] at hb
        exact hx.inj a b p ha hb
  · intro a p ha
    by_cases hae : a = e
    · rw [hae, he] at ha
      exact (hfirst p ha).1
    · rw [hother a hae] at ha
      exact fun hp => hx.notFree a p ha (List.mem_of_mem_tail hp)

lemma Covers.take (hc : Covers own free p) (hnone : own e = none)
    (hother : ∀ x, x ≠ e → own' x = own x) (he : own' e = free.head?) :
    Covers own' free.tail p := by
  rcases hc with hfree | ⟨x, hx⟩
  · cases hl : free with
    | nil =>
        rw [hl] at hfree
        exact absurd hfree List.not_mem_nil
    | cons q l =>
        rw [hl] at hfree he
        rcases List.mem_cons.mp hfree with rfl | hmem
        · exact .inr ⟨e, he⟩
        · exact .inl hmem
  · refine .inr ⟨x, ?_⟩
    rw [hother x, hx]
    rintro rfl
    rw [hnone] at hx
    cases hx

/-! ## Taking over a token -/

/-- A holder takes over the token of another, which gives it up; others may give theirs up. -/
lemma Exclusive.takeOver (hx : Exclusive own free) {o : H}
    (hother : ∀ x, x ≠ e → own' x = own x ∨ own' x = none) (he : own' e = own o)
    (ho : own' o = none ∨ o = e) : Exclusive own' free := by
  have hback : ∀ x p, x ≠ e → own' x = some p → own x = some p ∧ x ≠ o := by
    intro x p hxe hp
    rcases hother x hxe with hsame | hnone
    · refine ⟨hsame ▸ hp, ?_⟩
      rintro rfl
      rcases ho with ho | rfl
      · rw [ho] at hp
        cases hp
      · exact hxe rfl
    · rw [hnone] at hp
      cases hp
  refine ⟨?_, ?_, hx.nodup⟩
  · intro a b p ha hb
    by_cases hae : a = e
    · by_cases hbe : b = e
      · rw [hae, hbe]
      · obtain ⟨hb', hbo⟩ := hback b p hbe hb
        rw [hae, he] at ha
        exact absurd (hx.inj b o p hb' ha) hbo
    · obtain ⟨ha', hao⟩ := hback a p hae ha
      by_cases hbe : b = e
      · rw [hbe, he] at hb
        exact absurd (hx.inj a o p ha' hb) hao
      · exact hx.inj a b p ha' (hback b p hbe hb).1
  · intro a p ha
    by_cases hae : a = e
    · rw [hae, he] at ha
      exact hx.notFree o p ha
    · exact hx.notFree a p (hback a p hae ha).1

end Tokens
