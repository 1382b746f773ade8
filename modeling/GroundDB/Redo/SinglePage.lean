import GroundDB.LogIndex.Dispatch
import GroundDB.Redo.Buffer

/-!
# Replaying a log whole and page by page

A full redo applies a record to all its pages; replaying a log with it is `redoAll`.  A single-page
redo applies it to one page; replaying on a page only the records that are indexed for it is
`redoPage`, with the buffer released after each record.

A resource manager enters with the pages its records touch, on either side: a full redo makes the
touches of the record, if only on some pages (`MakesOn`), a single-page redo those of its page
(`ChangesPage`), and the record is indexed for the pages it touches (`Indexes`).  Then both replays
are replays of touches (`redoAll_run`, `redoPage_indexed_run`), and can be compared page by page.
-/

namespace GroundDB

open Touch

variable {C D : Type}

/-! ## Touching in sequence -/

/-- Changes of pages, one after the other. -/
abbrev Touches (C : Type) := List (BufferTag × (RedoPage C → RedoPage C))

/-- Touch the pages of `l` in turn. -/
def RedoState.touches (s : RedoState C) (l : Touches C) : RedoState C :=
  { s with pages := touchAll l s.pages }

section Touches

variable {s s' : RedoState C} {l l' : Touches C}
  {t t' : BufferTag} {f g : RedoPage C → RedoPage C}

@[simp] lemma touches_nil : s.touches [] = s := rfl

lemma touches_singleton : s.touches [(t, f)] = s.touch t f := rfl

lemma touches_append : s.touches (l ++ l') = (s.touches l).touches l' := by
  simp [RedoState.touches, touchAll]

@[simp] lemma touches_locked : (s.touches l).locked = s.locked := rfl

lemma touches_pages : (s.touches l).pages t = touchAt l t (s.pages t) := touchAll_apply _ _ _

lemma lock_touches : (s.lock t).touches l = (s.touches l).lock t := rfl

lemma touch_comm (h : t ≠ t') : (s.touch t f).touch t' g = (s.touch t' g).touch t f := by
  simp [RedoState.touch, h, h.symm, Function.update_comm h]

lemma touches_touch_comm (h : t ∉ touched l) :
    (s.touch t f).touches l = (s.touches l).touch t f := by
  induction l generalizing s with
  | nil => rfl
  | cons e l ih =>
      obtain ⟨hne, hl⟩ : t ≠ e.1 ∧ t ∉ touched l := by simpa using h
      change ((s.touch t f).touch e.1 e.2).touches l = _
      rw [touch_comm hne]
      exact ih hl

/-- A full redo makes the touches `l` on the pages in `Good`, and holds the same locks as before. -/
def MakesOn (Good : BufferTag → Prop) (l : Touches C) (m : Redo C Unit) (s : RedoState C) : Prop :=
  ∃ s', m s = .ok ((), s') ∧ s'.locked = s.locked ∧
    ∀ t, Good t → s'.pages t = touchAt l t (s.pages t)

lemma MakesOn.of_run {Good : BufferTag → Prop} {m : Redo C Unit}
    (h : m s = .ok ((), s.touches l)) : MakesOn Good l m s :=
  ⟨_, h, rfl, fun _ _ => touches_pages⟩

lemma MakesOn.bind {Good : BufferTag → Prop} {m m' : Redo C Unit} (h : MakesOn Good l m s)
    (h' : ∀ s', s'.locked = s.locked → MakesOn Good l' m' s') :
    MakesOn Good (l ++ l') (m >>= fun _ => m') s := by
  obtain ⟨s', hm, hlocked, hpages⟩ := h
  obtain ⟨s'', hm', hlocked', hpages'⟩ := h' s' hlocked
  refine ⟨s'', (redo_bind_ok hm).trans hm', hlocked'.trans hlocked, fun t ht => ?_⟩
  rw [touchAt_append, hpages' t ht, hpages t ht]

section OnePage

variable {tag : BufferTag} {m : Redo C (RedoAction × Buffer)} {action : RedoAction}

/-- When the caller of a single-page redo of page `tag` has released the buffer, the page is changed
as `l` says. -/
def ChangesPage (l : Touches C) (tag : BufferTag)
    (m : Redo C (RedoAction × Buffer)) (s : RedoState C) : Prop :=
  ∃ r s' s'', m s = .ok (r, s') ∧ releaseIfValid r.2 s' = .ok ((), s'') ∧
    s''.locked = s.locked ∧ s''.pages tag = touchAt l tag (s.pages tag)

/-- A single-page redo of page `tag` is the projection of the touches `l`: when the caller has
released the buffer, the page is changed as `l` says and no other is. -/
def ProjectsTo (l : Touches C) (tag : BufferTag)
    (m : Redo C (RedoAction × Buffer)) (s : RedoState C) : Prop :=
  ∃ r s', m s = .ok (r, s') ∧ releaseIfValid r.2 s' = .ok ((), s.touch tag (touchAt l tag))

/-- A single-page redo that changes the page as `l` says and returns what it should: a page that is
not in `l` is not found, a page of `l` is, if it exists.  Only with a page of the visibility map are
other pages changed, those below it. -/
def SinglePage (l : Touches C) (tag : BufferTag)
    (m : Redo C (RedoAction × Buffer)) (s : RedoState C) : Prop :=
  ∃ r s' below, m s = .ok (r, s') ∧
    releaseIfValid r.2 s' = .ok ((), (s.touches below).touch tag (touchAt l tag)) ∧
    tag ∉ touched below ∧ (tag.forkNum ≠ 2 → below = []) ∧
    (tag ∉ touched l → r.1 = .notFound) ∧
    (tag ∈ touched l → (s.pages tag).body ≠ none → r.1 ≠ .notFound)

lemma ProjectsTo.changesPage (h : ProjectsTo l tag m s) : ChangesPage l tag m s := by
  obtain ⟨r, s', hm, hrelease⟩ := h
  exact ⟨r, s', _, hm, hrelease, rfl, touch_pages_self⟩

lemma SinglePage.changesPage (h : SinglePage l tag m s) : ChangesPage l tag m s := by
  obtain ⟨r, s', below, hm, hrelease, hbelow, -⟩ := h
  refine ⟨r, s', _, hm, hrelease, rfl, ?_⟩
  rw [touch_pages_self, touches_pages, touchAt_of_notMem hbelow]

lemma ProjectsTo.of_append_nil (h : ProjectsTo (l ++ []) tag m s) : ProjectsTo l tag m s := by
  rwa [List.append_nil] at h

lemma ProjectsTo.of_read {e : RedoPage C → RedoPage C} (hl : touchAt l tag = e)
    (hm : m s = if action = .notFound then .ok ((.notFound, none), s)
      else .ok ((action, some tag), (s.touch tag e).lock tag))
    (hself : action = .notFound → s.touch tag e = s) : ProjectsTo l tag m s := by
  subst hl
  by_cases hnot : action = .notFound
  · exact ⟨_, _, hm.trans (if_pos hnot), by rw [hself hnot, releaseIfValid_none]⟩
  · exact ⟨_, _, hm.trans (if_neg hnot), releaseIfValid_lock⟩

lemma SinglePage.of_notMem (h : tag ∉ touched l) (hm : m s = .ok ((.notFound, none), s)) :
    SinglePage l tag m s := by
  refine ⟨_, _, [], hm, ?_, by simp, fun _ => rfl, fun _ => rfl, fun hmem => absurd hmem h⟩
  have hself : s.touch tag (touchAt l tag) = s := touch_eq_self (touchAt_of_notMem h)
  simp [hself]

lemma SinglePage.of_read {e : RedoPage C → RedoPage C} (h : tag ∈ touched l)
    (hl : touchAt l tag = e) (hm : m s = if action = .notFound then .ok ((.notFound, none), s)
      else .ok ((action, some tag), (s.touch tag e).lock tag))
    (haction : (s.pages tag).body ≠ none → action ≠ .notFound)
    (hself : action = .notFound → s.touch tag e = s) : SinglePage l tag m s := by
  subst hl
  by_cases hnot : action = .notFound
  · refine ⟨_, _, [], hm.trans (if_pos hnot), ?_, by simp, fun _ => rfl,
      fun hmem => absurd h hmem, fun _ hbody => absurd hnot (haction hbody)⟩
    rw [touches_nil, hself hnot, releaseIfValid_none]
  · exact ⟨_, _, [], hm.trans (if_neg hnot), releaseIfValid_lock, by simp, fun _ => rfl,
      fun hmem => absurd h hmem, fun _ _ => hnot⟩

lemma SinglePage.append_left (h : SinglePage l tag m s) (hl' : tag ∉ touched l') :
    SinglePage (l' ++ l) tag m s := by
  obtain ⟨r, s', below, hm, hrelease, hbelow, hnil, hnot, hmem⟩ := h
  have htouch : touchAt (l' ++ l) tag = touchAt l tag := by
    funext p
    rw [touchAt_append, touchAt_of_notMem hl']
  exact ⟨r, s', below, hm, by rw [htouch, hrelease], hbelow, hnil, by simpa [hl'] using hnot,
    by simpa [hl'] using hmem⟩

lemma SinglePage.of_change {below : Touches C}
    (hm : m s = .ok ((.needsRedo, some tag), ((s.touches below).touch tag g).lock tag))
    (hbelow : tag ∉ touched below) (hfork : tag.forkNum = 2) (hmem : tag ∈ touched l)
    (hl : ∀ p, touchAt l tag p = g p) : SinglePage l tag m s := by
  obtain rfl : touchAt l tag = g := funext hl
  exact ⟨_, _, below, hm, releaseIfValid_lock, hbelow, fun h => absurd hfork h,
    fun hnot => absurd hmem hnot, fun _ _ => by simp⟩

end OnePage

end Touches

/-! ## Indexed pages -/

/-- Indexing a record gives the pages of `tags`: decoding succeeds, saving does not panic, and the
blocks it inserts are these pages. -/
def Indexes (record : XLogRecord D) (tags : List BufferTag) : Prop :=
  ∃ decoded ids, polarXlogDecodeData record = some decoded ∧
    parseLogIndexXlog decoded = .handled ids ∧ ∀ tag, tag ∈ decoded.savedTags ids ↔ tag ∈ tags

lemma mem_savedTags {record : XLogRecord D} {ids : List ℕ} {tag : BufferTag} :
    tag ∈ record.savedTags ids ↔ ∃ id ∈ ids, record.blockTag? id = some tag := by
  simp [XLogRecord.savedTags]

lemma Indexes.mem_indexedTags {record : XLogRecord D} {tags : List BufferTag}
    (h : Indexes record tags) (tag : BufferTag) :
    tag ∈ record.indexedTags.getD [] ↔ tag ∈ tags := by
  obtain ⟨decoded, ids, hdec, hsave, htags⟩ := h
  have hindexed : record.indexedTags = some (decoded.savedTags ids) := by
    simp [XLogRecord.indexedTags, hdec, hsave]
  rw [hindexed, Option.getD_some, htags]

/-- The records of a log that are indexed for a page. -/
def indexedFor (tag : BufferTag) (log : List (XLogRecord D)) : List (XLogRecord D) :=
  log.filter fun record => tag ∈ record.indexedTags.getD []

/-! ## Replay -/

/-- Redo a log, record by record. -/
def redoAll (redo : XLogRecord D → Redo C Unit) : List (XLogRecord D) → Redo C Unit
  | [] => pure ()
  | record :: log => do
    redo record
    redoAll redo log

/-- Redo a log on one page; the caller releases the buffer it is handed. -/
def redoPage (redo : XLogRecord D → BufferTag → Redo C (RedoAction × Buffer)) (tag : BufferTag) :
    List (XLogRecord D) → Redo C Unit
  | [] => pure ()
  | record :: log => do
    let r ← redo record tag
    releaseIfValid r.2
    redoPage redo tag log

section Replay

variable {touches : XLogRecord D → Touches C}
  {log : List (XLogRecord D)} {s : RedoState C} {tag : BufferTag}

/-- **Full replay** is a replay of touches. -/
theorem redoAll_run {Good : BufferTag → Prop} {redo : XLogRecord D → Redo C Unit}
    (hrun : ∀ record ∈ log, ∀ s : RedoState C, s.locked = [] →
      MakesOn Good (touches record) (redo record) s)
    (hlocked : s.locked = []) :
    ∃ s', redoAll redo log s = .ok ((), s') ∧
      ∀ t, Good t → s'.pages t = replayAt touches log t (s.pages t) := by
  induction log generalizing s with
  | nil => exact ⟨s, rfl, fun _ _ => rfl⟩
  | cons record log ih =>
      obtain ⟨s₁, hredo, hlocked₁, hpages₁⟩ := hrun record List.mem_cons_self s hlocked
      obtain ⟨s', hrest, hpages⟩ := ih (fun r hr => hrun r (List.mem_cons_of_mem _ hr))
        (hlocked₁.trans hlocked)
      refine ⟨s', (redo_bind_ok hredo).trans hrest, fun t ht => ?_⟩
      rw [hpages t ht, hpages₁ t ht]
      rfl

/-- **Replay on one page** is a replay of the touches of that page. -/
theorem redoPage_run {redo : XLogRecord D → BufferTag → Redo C (RedoAction × Buffer)}
    (hrun : ∀ record ∈ log, ∀ s : RedoState C, s.locked = [] →
      ChangesPage (touches record) tag (redo record tag) s)
    (hlocked : s.locked = []) :
    ∃ s', redoPage redo tag log s = .ok ((), s') ∧
      s'.pages tag = replayAt touches log tag (s.pages tag) := by
  induction log generalizing s with
  | nil => exact ⟨s, rfl, rfl⟩
  | cons record log ih =>
      obtain ⟨r, s₁, s₂, hredo, hrelease, hlocked₂, hpage₂⟩ :=
        hrun record List.mem_cons_self s hlocked
      obtain ⟨s', hrest, hpage⟩ := ih (fun r hr => hrun r (List.mem_cons_of_mem _ hr))
        (hlocked₂.trans hlocked)
      refine ⟨s', (redo_bind_ok hredo).trans ((redo_bind_ok hrelease).trans hrest), ?_⟩
      rw [hpage, hpage₂]
      rfl

/-- Only the records that are indexed for the page have to be replayed on it. -/
theorem redoPage_indexed_run {redo : XLogRecord D → BufferTag → Redo C (RedoAction × Buffer)}
    (hrun : ∀ record ∈ log, tag ∈ touched (touches record) → ∀ s : RedoState C, s.locked = [] →
      ChangesPage (touches record) tag (redo record tag) s)
    (hindex : ∀ record ∈ log, Indexes record (touched (touches record))) (hlocked : s.locked = []) :
    ∃ s', redoPage redo tag (indexedFor tag log) s = .ok ((), s') ∧
      s'.pages tag = replayAt touches log tag (s.pages tag) := by
  have hfilter : indexedFor tag log = log.filter fun r => tag ∈ touched (touches r) :=
    List.filter_congr fun r hr => by simp [(hindex r hr).mem_indexedTags tag]
  have hmem (record : XLogRecord D) (h : record ∈ indexedFor tag log) :
      record ∈ log ∧ tag ∈ touched (touches record) := by
    have hmem := List.mem_filter.mp (hfilter ▸ h)
    exact ⟨hmem.1, of_decide_eq_true hmem.2⟩
  obtain ⟨s', hredo, hpage⟩ := redoPage_run (fun r hr => hrun r (hmem r hr).1 (hmem r hr).2) hlocked
  refine ⟨s', hredo, ?_⟩
  rw [hpage, hfilter, replayAt_filter]

end Replay

end GroundDB
