import GroundDB.HashMap.Operations
import GroundDB.LogIndex.Dispatch

/-!
# Parsing the WAL into the page-version index

The parser reads one record after another and inserts the start LSN of the record into the list of
every page the save routine of its resource manager names (`parseRecord`).  A record may name a page
several times, and after a restart or a retry records are read again that were read before.

Insertion refuses LSNs below the maximum of a list, replaces nothing for the maximum itself and
appends larger ones.  Together with the order of the WAL this makes it the insertion into a sorted
set (`PageLists.insert`), so that reading a record again changes no list, and every list holds the
start LSNs of the records that name its page (`parse_indexing_exact`).
-/

namespace GroundDB

variable {D : Type}

/-! ## The parser -/

/-- `ParseXLogBlocksLsn` on the map, for one block id of a record that starts at `readRecPtr`. -/
def parseBlock (record : XLogRecord D) (readRecPtr : ℕ) (m : HashMap) (recordBlockId : ℕ) :
    Option HashMap :=
  if record.blocks.length ≤ recordBlockId then some m
  else if !record.hasBlockRef recordBlockId then some m
  else match record.blockTag? recordBlockId with
    | none => some m
    | some tag => (hashMapInsertKey m (keyOfTag tag) readRecPtr 0 true).map Prod.fst

/-- A record is decoded and the blocks its save routine names are parsed. -/
def parseRecord (m : HashMap) (readRecPtr : ℕ) (record : XLogRecord D) : Option HashMap := do
  let decoded ← polarXlogDecodeData record
  match parseLogIndexXlog decoded with
  | .panic => none
  | .skipped => some m
  | .handled ids => ids.foldlM (parseBlock decoded readRecPtr) m

/-- Insert an LSN into the lists of pages. -/
def insertTags (m : HashMap) (lsn : ℕ) (tags : List BufferTag) : Option HashMap :=
  tags.foldlM (fun m tag => (hashMapInsertKey m (keyOfTag tag) lsn 0 true).map Prod.fst) m

lemma parseBlock_eq (record : XLogRecord D) (readRecPtr : ℕ) (m : HashMap) (id : ℕ) :
    parseBlock record readRecPtr m id = insertTags m readRecPtr (record.blockTag? id).toList := by
  unfold parseBlock
  cases htag : record.blockTag? id with
  | none =>
      split <;> first | rfl | (split <;> rfl)
  | some tag =>
      have hlen : ¬record.blocks.length ≤ id := by
        intro hle
        simp [XLogRecord.blockTag?, XLogRecord.block?, List.getElem?_eq_none hle] at htag
      have href : record.hasBlockRef id = true := by
        rw [XLogRecord.hasBlockRef_eq, htag]
        rfl
      simp [hlen, href, insertTags]

lemma insertTags_append (m : HashMap) (lsn : ℕ) (tags tags' : List BufferTag) :
    insertTags m lsn (tags ++ tags') = (insertTags m lsn tags).bind fun m' =>
      insertTags m' lsn tags' := by
  simp [insertTags, List.foldlM_append]

lemma parseBlocks_eq (record : XLogRecord D) (readRecPtr : ℕ) (m : HashMap) (ids : List ℕ) :
    ids.foldlM (parseBlock record readRecPtr) m
      = insertTags m readRecPtr (record.savedTags ids) := by
  induction ids generalizing m with
  | nil => rfl
  | cons id ids ih =>
      have hsaved : record.savedTags (id :: ids)
          = (record.blockTag? id).toList ++ record.savedTags ids := by
        cases htag : record.blockTag? id <;> simp [XLogRecord.savedTags, htag]
      rw [hsaved, insertTags_append, ← parseBlock_eq, List.foldlM_cons]
      exact congrArg _ (funext ih)

/-- Parsing a record inserts its start LSN for the pages that are indexed. -/
lemma parseRecord_eq (m : HashMap) (readRecPtr : ℕ) (record : XLogRecord D) :
    parseRecord m readRecPtr record
      = record.indexedTags.bind fun tags => insertTags m readRecPtr tags := by
  unfold parseRecord XLogRecord.indexedTags
  cases polarXlogDecodeData record with
  | none => rfl
  | some decoded =>
      simp only [Option.bind_eq_bind, Option.bind_some]
      cases parseLogIndexXlog decoded with
      | panic => rfl
      | skipped => rfl
      | handled ids => exact parseBlocks_eq decoded readRecPtr m ids

/-! ## The lists of the pages -/

/-- The list of every page is `lists`, and no other key has a list. -/
structure PageLists (m : HashMap) (chainOf : ℕ → EleNodes)
    (lists : BufferTag → List ℕ) : Prop where
  map : MapInv m chainOf
  keys : ∀ key, pageList m chainOf key ≠ none → ∃ tag, key = keyOfTag tag
  unlisted : ∀ tag, pageList m chainOf (keyOfTag tag) = none → lists tag = []
  listed : ∀ tag head chain, pageList m chainOf (keyOfTag tag) = some (head, chain) →
    listLsns head chain = lists tag

/-- Insertion into a list of which the LSN is a member or an upper bound. -/
def insertLsn (list : List ℕ) (lsn : ℕ) : List ℕ := if lsn ∈ list then list else list ++ [lsn]

namespace PageLists

variable {m : HashMap} {chainOf : ℕ → EleNodes} {lists : BufferTag → List ℕ}

lemma update (h : PageLists m chainOf lists) {tag : BufferTag} {m' : HashMap}
    {chainOf' : ℕ → EleNodes} {head : HashNodeHead} {chain : EleNodes}
    (hup : PageUpdate m chainOf (keyOfTag tag) m' chainOf' (some (head, chain))) :
    PageLists m' chainOf' (Function.update lists tag (listLsns head chain)) := by
  have hother {t : BufferTag} (ht : t ≠ tag) :
      pageList m' chainOf' (keyOfTag t) = pageList m chainOf (keyOfTag t) :=
    hup.others _ fun heq => ht (keyOfTag_injective heq)
  refine ⟨hup.inv, fun key hkey => ?_, fun t hnone => ?_, fun t g c hlist => ?_⟩
  · by_cases hk : key = keyOfTag tag
    · exact ⟨tag, hk⟩
    · exact h.keys key (by rwa [← hup.others key hk])
  · by_cases ht : t = tag
    · rw [ht, hup.here] at hnone
      cases hnone
    · rw [Function.update_of_ne ht]
      exact h.unlisted t (hother ht ▸ hnone)
  · by_cases ht : t = tag
    · subst ht
      obtain ⟨rfl, rfl⟩ : head = g ∧ chain = c := by simpa [hup.here] using hlist
      rw [Function.update_self]
    · rw [Function.update_of_ne ht]
      exact h.listed t g c (hother ht ▸ hlist)

/-- **Insertion acts on sorted sets**: an LSN that is in the list already, or above it. -/
lemma insert (h : PageLists m chainOf lists) (tag : BufferTag) {lsn : ℕ} (hlsn : 1 ≤ lsn)
    (horder : lsn ∈ lists tag ∨ ∀ x ∈ lists tag, x < lsn) :
    ∃ m' chainOf' result, hashMapInsertKey m (keyOfTag tag) lsn 0 true = some (m', result) ∧
      PageLists m' chainOf' (Function.update lists tag (insertLsn (lists tag) lsn)) := by
  rcases hashMapInsertKey_spec h.map (keyOfTag tag) 0 true fun _ => hlsn with
    ⟨hnone, m', chainOf', nextHead, hrun, hup⟩ |
    ⟨head, chain, hlist, m', chainOf', head', chain', hrun, hup, hins, _⟩
  · refine ⟨m', chainOf', true, hrun, ?_⟩
    have hnew := h.update hup
    rw [h.unlisted tag hnone]
    simpa [newHead, HashNodeHead.core, listLsns, entryLsns, insertLsn] using hnew
  · refine ⟨m', chainOf', _, hrun, ?_⟩
    have hinv := (h.map.pageList_inv hlist).1
    have hlsns := h.listed tag head chain hlist
    have hnew := h.update hup
    rw [hins.lsns, hlsns] at hnew
    by_cases hmem : lsn ∈ lists tag
    · -- it is not above the maximum
      have hle : lsn ≤ head.maxLsn := hinv.le_maxLsn (hlsns ▸ hmem)
      simpa [insertLsn, hmem, not_lt.mpr hle] using hnew
    · have hlt : head.maxLsn < lsn :=
        horder.resolve_left hmem _ (hlsns ▸ List.mem_of_getLast? hinv.head_max)
      simpa [insertLsn, hmem, hlt] using hnew

lemma insertTags (h : PageLists m chainOf lists) {lsn : ℕ} (hlsn : 1 ≤ lsn) (tags : List BufferTag)
    (horder : ∀ tag ∈ tags, lsn ∈ lists tag ∨ ∀ x ∈ lists tag, x < lsn) :
    ∃ m' chainOf', insertTags m lsn tags = some m' ∧
      PageLists m' chainOf' fun tag =>
        if tag ∈ tags then insertLsn (lists tag) lsn else lists tag := by
  induction tags generalizing m chainOf lists with
  | nil => exact ⟨m, chainOf, rfl, by simpa using h⟩
  | cons tag tags ih =>
      obtain ⟨m₁, chainOf₁, result, hrun, h₁⟩ :=
        h.insert tag hlsn (horder tag List.mem_cons_self)
      have horder₁ : ∀ t ∈ tags,
          lsn ∈ Function.update lists tag (insertLsn (lists tag) lsn) t ∨
          ∀ x ∈ Function.update lists tag (insertLsn (lists tag) lsn) t, x < lsn := by
        intro t ht
        by_cases heq : t = tag
        · left
          rw [heq, Function.update_self, insertLsn]
          split <;> simp [*]
        · rw [Function.update_of_ne heq]
          exact horder t (List.mem_cons_of_mem _ ht)
      obtain ⟨m', chainOf', hrest, h'⟩ := ih h₁ horder₁
      refine ⟨m', chainOf', ?_, ?_⟩
      · simpa [GroundDB.insertTags, hrun] using hrest
      · convert h' using 2 with t
        by_cases heq : t = tag
        · subst heq
          have htwice : insertLsn (insertLsn (lists t) lsn) lsn = insertLsn (lists t) lsn := by
            unfold insertLsn
            split <;> simp [*]
          simp [htwice]
        · simp [heq]

end PageLists

/-! ## Runs of the parser -/

/-- The map, and the records read so far with their start LSNs, each where it was read first. -/
structure ParseState (D : Type) where
  map : HashMap
  parsed : List (ℕ × XLogRecord D)

/-- Nothing has been read. -/
def ParseState.init (D : Type) (n : ℕ) (hn : 0 < n) : ParseState D := ⟨hashMapInit n hn, []⟩

/-- A record is read: the next one of the WAL, which starts behind those read so far, or one that
was read before.  No record starts at `InvalidXLogRecPtr`. -/
def ParseStep (s : ParseState D) (r : ℕ × XLogRecord D) (s' : ParseState D) : Prop :=
  parseRecord s.map r.1 r.2 = some s'.map ∧
  ((1 ≤ r.1 ∧ (∀ q ∈ s.parsed, q.1 < r.1) ∧ s'.parsed = s.parsed ++ [r]) ∨
    (r ∈ s.parsed ∧ s'.parsed = s.parsed))

/-- The parser inserts the page for the record. -/
def XLogRecord.Inserts (record : XLogRecord D) (tag : BufferTag) : Prop :=
  ∃ tags, record.indexedTags = some tags ∧ tag ∈ tags

instance (record : XLogRecord D) (tag : BufferTag) : Decidable (record.Inserts tag) :=
  match h : record.indexedTags with
  | none => isFalse (by rintro ⟨tags, htags, -⟩; simp [h] at htags)
  | some tags => decidable_of_iff (tag ∈ tags) (by simp [XLogRecord.Inserts, h])

/-- The start LSNs of the records for which the parser inserted the page. -/
def startLsns (parsed : List (ℕ × XLogRecord D)) (tag : BufferTag) : List ℕ :=
  (parsed.filter fun r => r.2.Inserts tag).map Prod.fst

lemma mem_startLsns {parsed : List (ℕ × XLogRecord D)} {tag : BufferTag} {lsn : ℕ} :
    lsn ∈ startLsns parsed tag ↔ ∃ r ∈ parsed, r.2.Inserts tag ∧ r.1 = lsn := by
  simp [startLsns, and_assoc]

/-- The lists are those of the records read, which are in WAL order. -/
structure ParseState.Ok (s : ParseState D) : Prop where
  pageLists : ∃ chainOf, PageLists s.map chainOf (startLsns s.parsed)
  sorted : (s.parsed.map Prod.fst).Pairwise (· < ·)
  positive : ∀ r ∈ s.parsed, 1 ≤ r.1

namespace ParseState

variable {s s' : ParseState D} {r : ℕ × XLogRecord D}

lemma ok_init (n : ℕ) (hn : 0 < n) : (init D n hn).Ok := by
  have hnone := pageList_init n hn fun _ => []
  refine ⟨⟨fun _ => [], mapInv_init n hn _, fun key hkey => absurd (hnone key) hkey,
    fun _ _ => rfl, ?_⟩, .nil, fun _ hr => absurd hr List.not_mem_nil⟩
  intro tag head chain hlist
  exact absurd (hlist.symm.trans (hnone (keyOfTag tag))) (by simp)

/-- The next record of the WAL, or one read before: its LSN fits every list it goes into. -/
def Readable (s : ParseState D) (r : ℕ × XLogRecord D) : Prop :=
  (1 ≤ r.1 ∧ ∀ q ∈ s.parsed, q.1 < r.1) ∨ r ∈ s.parsed

/-- **Parsing a record** inserts its start LSN where the parser names the page, and nowhere else. -/
lemma Ok.parseRecord (h : s.Ok) {tags : List BufferTag} (hread : s.Readable r)
    (htags : r.2.indexedTags = some tags) :
    ∃ m' chainOf', parseRecord s.map r.1 r.2 = some m' ∧
      PageLists m' chainOf' fun tag =>
        if tag ∈ tags then insertLsn (startLsns s.parsed tag) r.1 else startLsns s.parsed tag := by
  obtain ⟨chainOf, hidx⟩ := h.pageLists
  have hlsn : 1 ≤ r.1 := hread.elim (fun hnew => hnew.1) fun hold => h.positive r hold
  have horder : ∀ tag ∈ tags,
      r.1 ∈ startLsns s.parsed tag ∨ ∀ x ∈ startLsns s.parsed tag, x < r.1 := by
    intro tag htag
    rcases hread with ⟨-, hnew⟩ | hold
    · right
      intro x hx
      obtain ⟨q, hq, -, rfl⟩ := mem_startLsns.mp hx
      exact hnew q hq
    · exact .inl (mem_startLsns.mpr ⟨r, hold, ⟨tags, htags, htag⟩, rfl⟩)
  obtain ⟨m', chainOf', hrun, hidx'⟩ := hidx.insertTags hlsn tags horder
  exact ⟨m', chainOf', by rw [parseRecord_eq, htags, Option.bind_some, hrun], hidx'⟩

lemma Ok.step (h : s.Ok) (hs : ParseStep s r s') : s'.Ok := by
  obtain ⟨hrun, hread⟩ := hs
  obtain ⟨tags, htags⟩ : ∃ tags, r.2.indexedTags = some tags := by
    rw [parseRecord_eq] at hrun
    obtain ⟨tags, htags, -⟩ := Option.bind_eq_some_iff.mp hrun
    exact ⟨tags, htags⟩
  have hiff (tag : BufferTag) : r.2.Inserts tag ↔ tag ∈ tags := by
    simp [XLogRecord.Inserts, htags]
  rcases hread with ⟨hlsn, hnew, hparsed⟩ | ⟨hold, hparsed⟩
  · obtain ⟨m', chainOf', hrun', hidx⟩ := h.parseRecord (.inl ⟨hlsn, hnew⟩) htags
    obtain rfl : m' = s'.map := Option.some.inj (hrun'.symm.trans hrun)
    refine ⟨⟨chainOf', ?_⟩, ?_, ?_⟩
    · convert hidx using 1
      funext tag
      have hfresh : r.1 ∉ startLsns s.parsed tag := by
        intro hmem
        obtain ⟨q, hq, -, heq⟩ := mem_startLsns.mp hmem
        exact absurd (hnew q hq) (by omega)
      by_cases htag : tag ∈ tags
      · have hins : insertLsn (startLsns s.parsed tag) r.1 = startLsns s.parsed tag ++ [r.1] :=
          if_neg hfresh
        rw [if_pos htag, hins]
        simp [hparsed, startLsns, hiff, htag]
      · simp [hparsed, startLsns, hiff, htag]
    · rw [hparsed, List.map_append, List.pairwise_append]
      refine ⟨h.sorted, List.pairwise_singleton _ _, fun x hx y hy => ?_⟩
      obtain ⟨q, hq, rfl⟩ := List.mem_map.mp hx
      obtain rfl : y = r.1 := by simpa using hy
      exact hnew q hq
    · intro q hq
      rw [hparsed] at hq
      rcases List.mem_append.mp hq with hq | hq
      · exact h.positive q hq
      · rw [List.mem_singleton.mp hq]
        exact hlsn
  · obtain ⟨m', chainOf', hrun', hidx⟩ := h.parseRecord (.inr hold) htags
    obtain rfl : m' = s'.map := Option.some.inj (hrun'.symm.trans hrun)
    refine ⟨⟨chainOf', ?_⟩, hparsed ▸ h.sorted, hparsed ▸ h.positive⟩
    convert hidx using 1
    funext tag
    rw [hparsed]
    by_cases htag : tag ∈ tags
    · -- the record is in the list of each of its pages
      have hmem : r.1 ∈ startLsns s.parsed tag :=
        mem_startLsns.mpr ⟨r, hold, (hiff tag).mpr htag, rfl⟩
      simp [htag, insertLsn, hmem]
    · simp [htag]

lemma mem_parsed {n : ℕ} {hn : 0 < n} {tr : List (ℕ × XLogRecord D)}
    (hrun : Lts.Run ParseStep (init D n hn) tr s) (r : ℕ × XLogRecord D) :
    r ∈ s.parsed ↔ r ∈ tr := by
  refine hrun.history_invariant (I := fun tr s => r ∈ s.parsed ↔ r ∈ tr) Iff.rfl ?_
  rintro tr s q s' - ih ⟨-, ⟨-, -, hparsed⟩ | ⟨hold, hparsed⟩⟩
  · simp [hparsed, ih]
  · rw [hparsed, ih, List.mem_append, List.mem_singleton]
    refine ⟨.inl, fun hmem => hmem.elim id ?_⟩
    rintro rfl
    exact ih.mp hold

end ParseState

/-! ## Results -/

/-- **Parse indexing is exact and idempotent.**  After any run of the parser, in which records may
have been read again, the list of every page is the increasing list of the start LSNs of the records
for which the parser inserted the page, and there is no other list.  The parser can always go on
with a record that has pages to index. -/
theorem parse_indexing_exact {n : ℕ} {hn : 0 < n} {tr : List (ℕ × XLogRecord D)}
    {s : ParseState D} (hrun : Lts.Run ParseStep (ParseState.init D n hn) tr s) :
    (∀ r, r ∈ s.parsed ↔ r ∈ tr) ∧ (s.parsed.map Prod.fst).Pairwise (· < ·) ∧
    (∀ tag, (startLsns s.parsed tag).Pairwise (· < ·) ∧
      (startLsns s.parsed tag ≠ [] → ∃ head chain, OnList s.map (keyOfTag tag) head chain ∧
        listLsns head chain = startLsns s.parsed tag)) ∧
    (∀ key, (∀ r ∈ s.parsed, ∀ tag, r.2.Inserts tag → key ≠ keyOfTag tag) →
      s.map.headOf key = none) ∧
    ∀ r, s.Readable r → r.2.indexedTags ≠ none → ∃ s', ParseStep s r s' := by
  have hok : s.Ok := hrun.invariant (ParseState.ok_init n hn) fun _ _ _ h hs => h.step hs
  obtain ⟨chainOf, hidx⟩ := hok.pageLists
  refine ⟨ParseState.mem_parsed hrun, hok.sorted, fun tag => ⟨?_, fun hne => ?_⟩,
    fun key hkey => ?_, fun r hread htags => ?_⟩
  · exact hok.sorted.sublist (List.filter_sublist.map _)
  · cases hlist : pageList s.map chainOf (keyOfTag tag) with
    | none => exact absurd (hidx.unlisted tag hlist) hne
    | some list =>
        obtain ⟨full, hon, hcore⟩ := (onList_iff_pageList hidx.map).mpr hlist
        refine ⟨full, list.2, hon, ?_⟩
        rw [← hidx.listed tag _ _ hlist, ← hcore]
        rfl
  · refine Option.eq_none_iff_forall_not_mem.mpr fun head hhead => ?_
    obtain ⟨chain, hon⟩ := (headOf_eq_some hidx.map).mp hhead
    have hlist := (onList_iff_pageList hidx.map).mp ⟨head, hon, rfl⟩
    obtain ⟨tag, rfl⟩ := hidx.keys key (by simp [hlist])
    -- the head of a list holds at least one LSN
    have hhead := (hidx.map.onList_inv hon).head_nonempty
    obtain ⟨entry, hentry⟩ := List.exists_mem_of_ne_nil _ hhead
    have hmem : entry.lsn ∈ startLsns s.parsed tag := by
      rw [← hidx.listed tag _ _ hlist]
      exact List.mem_append_left _ (List.mem_map_of_mem hentry)
    obtain ⟨r, hr, hins, -⟩ := mem_startLsns.mp hmem
    exact hkey r hr tag hins rfl
  · obtain ⟨tags, htags⟩ := Option.ne_none_iff_exists'.mp htags
    obtain ⟨m', -, hparse, -⟩ := hok.parseRecord hread htags
    rcases hread with ⟨hlsn, hnew⟩ | hold
    · exact ⟨⟨m', s.parsed ++ [r]⟩, hparse, .inl ⟨hlsn, hnew, rfl⟩⟩
    · exact ⟨⟨m', s.parsed⟩, hparse, .inr ⟨hold, rfl⟩⟩

/-- Two inserts into one page are read, and the first of them once more: its list holds each once.
-/
theorem parse_indexing_reread :
    ∃ s head chain, Lts.Run ParseStep (ParseState.init Unit 1023 (by decide))
        [(100, clearingInsert), (200, clearingInsert), (100, clearingInsert)] s ∧
      OnList s.map (keyOfTag ⟨1663, 5, 16384, 0, 40000⟩) head chain ∧
      listLsns head chain = [100, 200] := by
  obtain ⟨m₁, m₂, m₃, h₁, h₂, h₃⟩ : ∃ m₁ m₂ m₃,
      parseRecord (hashMapInit 1023 (by decide)) 100 clearingInsert = some m₁ ∧
      parseRecord m₁ 200 clearingInsert = some m₂ ∧
      parseRecord m₂ 100 clearingInsert = some m₃ := ⟨_, _, _, rfl, rfl, rfl⟩
  have s₁ : ParseStep (ParseState.init Unit 1023 (by decide)) (100, clearingInsert)
      ⟨m₁, [(100, clearingInsert)]⟩ := ⟨h₁, .inl ⟨by decide, by simp [ParseState.init], rfl⟩⟩
  have s₂ : ParseStep ⟨m₁, [(100, clearingInsert)]⟩ (200, clearingInsert)
      ⟨m₂, [(100, clearingInsert), (200, clearingInsert)]⟩ :=
    ⟨h₂, .inl ⟨by decide, by simp, rfl⟩⟩
  have s₃ : ParseStep ⟨m₂, [(100, clearingInsert), (200, clearingInsert)]⟩ (100, clearingInsert)
      ⟨m₃, [(100, clearingInsert), (200, clearingInsert)]⟩ := ⟨h₃, .inr ⟨by simp, rfl⟩⟩
  have hrun := Lts.Run.cons s₁ (.cons s₂ (.cons s₃ .nil))
  obtain ⟨-, -, hpages, -⟩ := parse_indexing_exact hrun
  obtain ⟨-, hlist⟩ := hpages ⟨1663, 5, 16384, 0, 40000⟩
  have hlsns : startLsns [(100, clearingInsert), (200, clearingInsert)]
      ⟨1663, 5, 16384, 0, 40000⟩ = [100, 200] := rfl
  rw [hlsns] at hlist
  obtain ⟨head, chain, hon, hlsns⟩ := hlist (by decide)
  exact ⟨_, head, chain, hrun, hon, hlsns⟩

end GroundDB
