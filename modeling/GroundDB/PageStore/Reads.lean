import GroundDB.PageStore.Versions

/-!
# Versioned reads

Runs of the storage node, one operation at a time: the parser indexes blocks of records, requests
read pages at any target LSN, and the vacuumer makes its passes.

`versioned_read` describes every read of an indexed page in every state a run reaches.  The page as
of the target is returned exactly when the target is not below the one version that is stored
(or is below all records, where the base page is right); every other read asks the store for a
version that is not there.  The vacuumer never does.
-/

namespace GroundDB

open PtrHeap History Function

section Reads

variable {Page : Type}

/-- The storage node with the LSNs it has parsed for each page, in WAL order. -/
structure Storage (Page : Type) where
  node : Node Page
  parsed : BufferTag → List ℕ

/-- An operation of the storage node. -/
inductive StorageOp
  | parse (tag : BufferTag) (lsn : ℕ)
  | read (req : ReadRequest)
  | background (iter : ℕ)

/-- The node before anything is parsed. -/
def Storage.init (Page : Type) (n : ℕ) (hn : 0 < n) : Storage Page :=
  { node := { map := hashMapInit n hn, kv := fun _ _ => none }, parsed := fun _ => [] }

variable (basePage : BufferTag → Page) (redo : BufferTag → ℕ → Page → Page)

/-- The effect of an operation. -/
def storageStep (s : Storage Page) : StorageOp → Option (Storage Page)
  | .parse tag lsn => (parseXLogBlocksLsn s.node tag lsn).map fun node =>
      { node := node
        parsed := update s.parsed tag
          (if lsn ∈ s.parsed tag then s.parsed tag else s.parsed tag ++ [lsn]) }
  | .read req => (readBufferCommon basePage redo s.node req).map fun r => { s with node := r.1 }
  | .background iter =>
      (backgroundReplayHeadNode basePage redo s.node iter).map fun r => { s with node := r.1 }

/-- The records of a page are parsed in WAL order, except that the parser may read records again
that it has parsed before. -/
def InWalOrder (s : Storage Page) : StorageOp → Prop
  | .parse tag lsn => 1 ≤ lsn ∧ (lsn ∈ s.parsed tag ∨ ∀ x ∈ s.parsed tag, x < lsn)
  | _ => True

/-- One step of a run. -/
def StorageStep (s : Storage Page) (op : StorageOp) (s' : Storage Page) : Prop :=
  InWalOrder s op ∧ storageStep basePage redo s op = some s'

/-- The node fits the parsed records, where `chainOf` are the element nodes of the lists. -/
structure NodeOk (node : Node Page) (parsed : BufferTag → List ℕ)
    (chainOf : ℕ → EleNodes) : Prop where
  map : MapInv node.map chainOf
  /-- Only pages the parser has seen have lists. -/
  keys : ∀ key, pageList node.map chainOf key ≠ none → ∃ tag, key = keyOfTag tag
  pages : ∀ tag, PageOk (node.kv tag) (parsed tag) (basePage tag) (redo tag)
    (pageList node.map chainOf (keyOfTag tag))

variable {basePage redo} {copy : BufferTag → Page} {node : Node Page}
  {parsed : BufferTag → List ℕ} {chainOf : ℕ → EleNodes}

lemma nodeOk_init (n : ℕ) (hn : 0 < n) :
    NodeOk basePage redo (Storage.init Page n hn).node (Storage.init Page n hn).parsed
      fun _ => [] := by
  have hnone := pageList_init n hn fun _ => []
  refine ⟨mapInv_init n hn _, fun key hkey => absurd (hnone key) hkey, fun tag => ?_⟩
  change PageOk (fun _ => none) [] _ _ (pageList (hashMapInit n hn) (fun _ => []) _)
  rw [hnone]
  exact ⟨rfl, fun _ => rfl⟩

lemma NodeOk.update (h : NodeOk basePage redo node parsed chainOf) {tag : BufferTag}
    {map' : HashMap} {kv' : KvStore Page} {parsed' : List ℕ} {chainOf' : ℕ → EleNodes}
    {list : Option (HashNodeHead × EleNodes)}
    (hup : PageUpdate node.map chainOf (keyOfTag tag) map' chainOf' list)
    (hkv : ∀ t, t ≠ tag → kv' t = node.kv t)
    (hpage : PageOk (kv' tag) parsed' (basePage tag) (redo tag) list) :
    NodeOk basePage redo ⟨map', kv'⟩ (update parsed tag parsed') chainOf' := by
  refine ⟨hup.inv, fun key hkey => ?_, fun t => ?_⟩
  · by_cases hk : key = keyOfTag tag
    · exact ⟨tag, hk⟩
    · exact h.keys key (by rwa [← hup.others key hk])
  · by_cases ht : t = tag
    · subst ht
      rwa [update_self, hup.here]
    · have hne : keyOfTag t ≠ keyOfTag tag := fun heq => ht (keyOfTag_injective heq)
      change PageOk (kv' t) _ _ _ (pageList map' chainOf' (keyOfTag t))
      rw [update_of_ne ht, hup.others _ hne, hkv t ht]
      exact h.pages t

lemma NodeOk.update_replayed (h : NodeOk basePage redo node parsed chainOf) {tag : BufferTag}
    {map' : HashMap} {kv' : KvStore Page} {chainOf' : ℕ → EleNodes}
    {head : HashNodeHead} {chain : EleNodes}
    (hup : PageUpdate node.map chainOf (keyOfTag tag) map' chainOf' (some (head, chain)))
    (hkv : ∀ t, t ≠ tag → kv' t = node.kv t)
    (hok : ListOk (kv' tag) (parsed tag) (basePage tag) (redo tag) head chain) :
    NodeOk basePage redo ⟨map', kv'⟩ parsed chainOf' := by
  have hpage : PageOk (kv' tag) (parsed tag) (basePage tag) (redo tag) (some (head, chain)) := hok
  have hnode := h.update hup hkv hpage
  rwa [update_eq_self] at hnode

lemma NodeOk.page (h : NodeOk basePage redo node parsed chainOf) {key : KeyType}
    {head : HashNodeHead} {chain : EleNodes}
    (hlist : pageList node.map chainOf key = some (head, chain)) :
    ∃ tag, key = keyOfTag tag ∧ tagOfKey key = tag ∧
      ListOk (node.kv tag) (parsed tag) (basePage tag) (redo tag) head chain := by
  obtain ⟨tag, rfl⟩ := h.keys key (by rw [hlist]; simp)
  have hpage := h.pages tag
  rw [hlist] at hpage
  exact ⟨tag, rfl, tagOfKey_keyOfTag tag, hpage⟩

/-! ## Parsing -/

/-- **Parsing a block** keeps the node in order. -/
theorem parse_spec (h : NodeOk basePage redo node parsed chainOf) {tag : BufferTag} {lsn : ℕ}
    (hlsn : 1 ≤ lsn) (horder : lsn ∈ parsed tag ∨ ∀ x ∈ parsed tag, x < lsn) :
    ∃ node' chainOf', parseXLogBlocksLsn node tag lsn = some node' ∧
      NodeOk basePage redo node' (update parsed tag
        (if lsn ∈ parsed tag then parsed tag else parsed tag ++ [lsn])) chainOf' := by
  rcases hashMapInsertKey_spec h.map (keyOfTag tag) 0 true fun _ => hlsn with
    ⟨hnone, m', chainOf', nextHead, hrun, hup⟩ |
    ⟨head, chain, hlist, m', chainOf', head', chain', hrun, hup, hins, _⟩
  · have hpage := h.pages tag
    rw [hnone] at hpage
    obtain ⟨hnil, hkv⟩ := hpage
    refine ⟨⟨m', node.kv⟩, chainOf', by simp [parseXLogBlocksLsn, hrun],
      h.update hup (fun _ _ => rfl) ?_⟩
    rw [hnil, if_neg (by simp)]
    have hpend := newHead_pending (keyOfTag tag) (node.map.bucketPos (keyOfTag tag)) 0 true
      nextHead hlsn
    refine ⟨by simp, by simpa using hlsn, ?_, ?_, rfl, fun v => ?_⟩
    · rw [hpend]
      simp [newHead, HashNodeHead.core, Nat.lt_of_succ_le hlsn]
    · simp [newHead, HashNodeHead.core, entryLsns]
    · rw [hkv v, if_neg]
      rintro ⟨rfl, hpos⟩
      exact lt_irrefl 0 hpos
  · have hinv := (h.map.pageList_inv hlist).1
    have hok := h.pages tag
    rw [hlist] at hok
    refine ⟨⟨m', node.kv⟩, chainOf', by simp [parseXLogBlocksLsn, hrun],
      h.update hup (fun _ _ => rfl) ?_⟩
    by_cases hmem : lsn ∈ parsed tag
    · -- read again: the list does not change
      rw [if_neg (not_lt.mpr (ListOk.le_maxLsn hok hmem))] at hins
      rw [if_pos hmem]
      exact ListOk.reparse hinv hok hins
    · have hgt : head.maxLsn < lsn :=
        horder.resolve_left hmem _ (List.mem_of_getLast? (ListOk.last hok))
      rw [if_pos hgt] at hins
      rw [if_neg hmem]
      exact ListOk.parse hinv hok hlsn hgt hins

/-! ## Reading -/

/-- A request that the node answers with a page: while nothing was replayed, one that wants at
least the first listed LSN; later, one that is not older than `replayedLsn`, or older than the
whole list. -/
def Answerable (head : HashNodeHead) (targetLsn : ℕ) : Prop :=
  ∃ first, (entryLsns head.lsnEntry.toList).head? = some first ∧
    if head.replayedLsn = 0 then first ≤ targetLsn
    else head.replayedLsn ≤ targetLsn ∨ targetLsn < first

/-- How a request for an indexed page ends, where `copy` is what the replay processes answer for a
page: with the page as of its target when it is answerable, or with the copy when it is older than
the list; and by asking for a version that is not stored when it is not answerable. -/
def ReadEnds (basePage copy : BufferTag → Page) (redo : BufferTag → ℕ → Page → Page)
    (node : Node Page) (parsed : BufferTag → List ℕ) (head : HashNodeHead) (req : ReadRequest)
    (outcome : Outcome Page) : Prop :=
  (Answerable head req.lsn ∧ outcome = .done (if head.replayedLsn ≤ req.lsn then
      asOf (redo req.tag) (basePage req.tag) (parsed req.tag) req.lsn else copy req.tag)) ∨
    (¬ Answerable head req.lsn ∧
      ∃ v, outcome = .missing req.tag v ∧ node.kv req.tag v = none)

section ReadSpec

variable {req : ReadRequest} {head : HashNodeHead} {chain : EleNodes}

/-- What a request does when there is nothing to replay on top of version `v`. -/
lemma read_nothingToReplay {map : HashMap} {v : ℕ} {lockOps : List LockOp}
    (hcall : hashMapGetBlockReplayList node.map req.key req.lsn =
      some (map, ⟨some ⟨v, [], 0⟩, lockOps⟩)) :
    readBufferCommon copy redo node req = some ({ node with map := map },
      match node.kv req.tag v with
      | none => .missing req.tag v
      | some page => .done page) := by
  simp only [readBufferCommon, hcall, Option.bind_eq_bind, Option.bind_some, if_true]
  cases node.kv req.tag v <;> rfl

lemma read_replayedVersion {map : HashMap} {lockOps : List LockOp}
    (hok : ListOk (node.kv req.tag) (parsed req.tag) (basePage req.tag) (redo req.tag) head chain)
    (hle : head.replayedLsn ≤ req.lsn)
    (hnone : between head.replayedLsn req.lsn (parsed req.tag) = [])
    (hcall : hashMapGetBlockReplayList node.map req.key req.lsn =
      some (map, ⟨some ⟨head.replayedLsn, [], 0⟩, lockOps⟩)) :
    ∃ outcome, readBufferCommon copy redo node req = some ({ node with map := map }, outcome) ∧
      ReadEnds basePage copy redo node parsed head req outcome := by
  refine ⟨_, read_nothingToReplay hcall, ?_⟩
  obtain ⟨first, hfirst, hmem, hmin⟩ := hok.exists_first
  rcases Nat.eq_zero_or_pos head.replayedLsn with hzero | hpos
  · right
    have hmiss : node.kv req.tag head.replayedLsn = none := hok.unstored hzero _
    refine ⟨?_, _, by rw [hmiss], hmiss⟩
    rintro ⟨f, hf, hcond⟩
    obtain rfl : first = f := by simpa [hfirst] using hf
    rw [if_pos hzero] at hcond
    have hin : first ∈ between head.replayedLsn req.lsn (parsed req.tag) :=
      mem_between.mpr ⟨hmem, by have := hok.positive first hmem; omega, hcond⟩
    rw [hnone] at hin
    cases hin
  · left
    refine ⟨⟨first, hfirst, ?_⟩, ?_⟩
    · rw [if_neg (by omega)]
      exact Or.inl hle
    · have hstored := hok.versions head.replayedLsn
      rw [if_pos ⟨rfl, hpos⟩] at hstored
      rw [hstored, if_pos hle]
      refine congrArg Outcome.done ?_
      rw [← asOf_extend hok.sorted hle, hnone]
      rfl

lemma asOf_last {P : Type} {f : ℕ → P → P} {b : P} {log : List ℕ} {r t last : ℕ}
    (hs : log.Pairwise (· < ·)) (hlast : (between r t log).getLast? = some last) :
    asOf f b log last = asOf f b log t := by
  have hmem := mem_between.mp (List.mem_of_getLast? hlast)
  refine asOf_congr fun x hx => ⟨fun h => h.trans hmem.2.2, fun h => ?_⟩
  by_cases hr : r < x
  · exact le_of_getLast? (hs.filter _) hlast (mem_between.mpr ⟨hx, hr, h⟩)
  · omega

/-- **A request above `replayedLsn`** with something to replay returns the page as of its target
and moves the stored version to the last LSN applied. -/
lemma read_replays {map : HashMap} {last : ℕ}
    (h : NodeOk basePage redo node parsed chainOf) (hkey : req.key = keyOfTag req.tag)
    (hok : ListOk (node.kv req.tag) (parsed req.tag) (basePage req.tag) (redo req.tag) head chain)
    (hcopy : (∀ v, node.kv req.tag v = none) → copy req.tag = basePage req.tag)
    (hlt : head.replayedLsn < req.lsn)
    (hlast : (between head.replayedLsn req.lsn (parsed req.tag)).getLast? = some last)
    (hcall : hashMapGetBlockReplayList node.map req.key req.lsn = some (map, .collected
      head.replayedLsn (between head.replayedLsn req.lsn (parsed req.tag))))
    (hup : PageUpdate node.map chainOf req.key map chainOf (some (head, chain))) :
    ∃ node' chainOf', readBufferCommon copy redo node req = some (node',
        .done (asOf (redo req.tag) (basePage req.tag) (parsed req.tag) req.lsn)) ∧
      NodeOk basePage redo node' parsed chainOf' := by
  obtain ⟨hparsed, hrlast, hlasttgt⟩ := mem_between.mp (List.mem_of_getLast? hlast)
  obtain ⟨map', chainOf', hupd, hup'⟩ :=
    hashMapUpdateReplayedLsn_spec hup.inv hup.here (hok.le_maxLsn hparsed) true
  rw [max_eq_right hrlast.le] at hup'
  set page := asOf (redo req.tag) (basePage req.tag) (parsed req.tag) req.lsn with hpage
  refine ⟨⟨map', replaceVersion node.kv req.tag head.replayedLsn last page⟩, chainOf', ?_, ?_⟩
  · have hlen : (between head.replayedLsn req.lsn (parsed req.tag)).length ≠ 0 := by
      rw [Ne, List.length_eq_zero_iff]
      rintro hnil
      rw [hnil] at hlast
      cases hlast
    have happly : applyLsnList redo req.tag (between head.replayedLsn req.lsn (parsed req.tag))
        (asOf (redo req.tag) (basePage req.tag) (parsed req.tag) head.replayedLsn) = page :=
      asOf_extend hok.sorted hlt.le
    have hget := hlast
    rw [List.getLast?_eq_getElem?] at hget
    simp [readBufferCommon, hcall, ReplayAnswer.collected, hlen, hok.replayBase_eq hcopy, happly,
      hget, hupd]
  · have htrans : PageUpdate node.map chainOf (keyOfTag req.tag) map' chainOf' _ :=
      ⟨hup'.inv, hkey ▸ hup'.here, fun k hk =>
        (hup'.others k (hkey ▸ hk)).trans (hup.others k (hkey ▸ hk))⟩
    refine h.update_replayed htrans
      (fun t ht => replaceVersion_other ht head.replayedLsn last page) ?_
    rw [hpage, ← asOf_last hok.sorted hlast]
    refine hok.replayed { head with replayedLsn := last } hrlast ?_ rfl rfl
    -- what is above `last` was pending before
    have hp : (listLsns head chain).filter (head.replayedLsn < ·) =
        (parsed req.tag).filter (head.replayedLsn < ·) := hok.pending
    change (listLsns head chain).filter (last < ·) = (parsed req.tag).filter (last < ·)
    rw [← filter_lt_filter_lt hrlast, hp, filter_lt_filter_lt hrlast]

lemma filter_le_eq_nil_iff {l : List ℕ} {t : ℕ} (hs : l.Pairwise (· < ·)) {first : ℕ}
    (hfirst : l.head? = some first) : l.filter (· ≤ t) = [] ↔ t < first := by
  cases l with
  | nil => cases hfirst
  | cons x xs =>
      obtain rfl : x = first := by simpa using hfirst
      constructor
      · intro h
        simpa using List.filter_eq_nil_iff.mp h x List.mem_cons_self
      · intro h
        refine filter_le_eq_nil fun y hy => ?_
        rcases List.mem_cons.mp hy with rfl | hy
        · exact h
        · exact h.trans ((List.pairwise_cons.mp hs).1 y hy)

/-- **A request below `replayedLsn`** is answered only below the whole list: otherwise it asks for
a version that was deleted. -/
lemma read_older {map : HashMap} {answer : ReplayAnswer}
    (hinv : VersionListInv node.map.eles head chain)
    (hok : ListOk (node.kv req.tag) (parsed req.tag) (basePage req.tag) (redo req.tag) head chain)
    (hgt : req.lsn < head.replayedLsn)
    (hans : getBlockReplayList head node.map.eles req.lsn = some answer)
    (hcall : hashMapGetBlockReplayList node.map req.key req.lsn = some (map, answer)) :
    ∃ outcome, readBufferCommon copy redo node req = some ({ node with map := map }, outcome) ∧
      ReadEnds basePage copy redo node parsed head req outcome := by
  obtain ⟨first, hfirst, hmem, hmin⟩ := hok.exists_first
  have hhead : (listLsns head chain).head? = some first := by
    rw [listLsns, List.head?_append, hfirst]
    rfl
  have hiff := filter_le_eq_nil_iff (t := req.lsn) hinv.increasing hhead
  rw [getBlockReplayList_older hinv hgt, Option.some.injEq] at hans
  have hpos : head.replayedLsn ≠ 0 := by omega
  cases hl : ((listLsns head chain).filter (· ≤ req.lsn)).getLast? with
  | none =>
      have hlt : req.lsn < first := hiff.mp (List.getLast?_eq_none_iff.mp hl)
      rw [hl] at hans
      subst hans
      refine ⟨.done (copy req.tag), by simp [readBufferCommon, hcall, ReplayAnswer.notFound],
        Or.inl ⟨⟨first, hfirst, ?_⟩, by rw [if_neg (not_le.mpr hgt)]⟩⟩
      rw [if_neg hpos]
      exact Or.inr hlt
  | some v =>
      have hv := List.mem_filter.mp (List.mem_of_getLast? hl)
      have hvle : v ≤ req.lsn := by simpa using hv.2
      have hmiss : node.kv req.tag v = none := by
        rw [hok.versions, if_neg fun hc => absurd hc.1 (by omega)]
      rw [hl] at hans
      subst hans
      refine ⟨.missing req.tag v, ?_, Or.inr ⟨?_, v, rfl, hmiss⟩⟩
      · rw [read_nothingToReplay hcall, hmiss]
      · rintro ⟨f, hf, hcond⟩
        obtain rfl : first = f := by simpa [hfirst] using hf
        rw [if_neg hpos] at hcond
        rcases hcond with hle | hlt
        · omega
        · rw [hiff.mpr hlt] at hl
          cases hl

/-- **A request for an indexed page**, in any state: it is answered exactly when it is answerable,
and otherwise asks for a version that is not stored. -/
theorem read_spec (h : NodeOk basePage redo node parsed chainOf)
    (hcopy : (∀ v, node.kv req.tag v = none) → copy req.tag = basePage req.tag)
    (hlist : pageList node.map chainOf req.key = some (head, chain)) :
    ∃ node' outcome chainOf', readBufferCommon copy redo node req = some (node', outcome) ∧
      NodeOk basePage redo node' parsed chainOf' ∧
      ReadEnds basePage copy redo node parsed head req outcome := by
  obtain ⟨tag, hkey, htag, hok⟩ := h.page hlist
  obtain rfl : req.tag = tag := by rw [req.tag_eq, htag]
  have hinv := (h.map.pageList_inv hlist).1
  rcases hashMapGetBlockReplayList_spec h.map req.key req.lsn with
    ⟨hnone, _⟩ | ⟨g, c, hg, map, answer, hcall, hans, hup⟩
  · rw [hnone] at hlist
    cases hlist
  obtain ⟨rfl, rfl⟩ : head = g ∧ chain = c := by simpa [hlist] using hg
  -- unless something is replayed, only links in the map change
  have hsame : NodeOk basePage redo { node with map := map } parsed chainOf := by
    have hup' : PageUpdate node.map chainOf (keyOfTag req.tag) map chainOf (some (head, chain)) :=
      hkey ▸ hup
    exact h.update_replayed hup' (fun _ _ => rfl) hok
  rcases lt_trichotomy head.replayedLsn req.lsn with hlt | heq | hgt
  · rw [getBlockReplayList_newer hinv hlt, Option.some.injEq, hok.between_eq] at hans
    subst hans
    cases hl : (between head.replayedLsn req.lsn (parsed req.tag)).getLast? with
    | none =>
        have hnil := List.getLast?_eq_none_iff.mp hl
        rw [hnil] at hcall
        obtain ⟨outcome, hrun, hout⟩ := read_replayedVersion hok hlt.le hnil hcall
        exact ⟨_, outcome, chainOf, hrun, hsame, hout⟩
    | some last =>
        obtain ⟨node', chainOf', hrun, hok'⟩ := read_replays h hkey hok hcopy hlt hl hcall hup
        refine ⟨node', _, chainOf', hrun, hok', Or.inl ⟨?_, by rw [if_pos hlt.le]⟩⟩
        obtain ⟨first, hfirst, hmem, hmin⟩ := hok.exists_first
        have hin := mem_between.mp (List.mem_of_getLast? hl)
        refine ⟨first, hfirst, ?_⟩
        split_ifs
        · exact (hmin last hin.1).trans hin.2.2
        · exact Or.inl hlt.le
  · rw [← heq, getBlockReplayList_same, Option.some.injEq] at hans
    subst hans
    have hnil : between head.replayedLsn req.lsn (parsed req.tag) = [] :=
      between_eq_nil fun x _ => by omega
    obtain ⟨outcome, hrun, hout⟩ := read_replayedVersion hok heq.le hnil hcall
    exact ⟨_, outcome, chainOf, hrun, hsame, hout⟩
  · obtain ⟨outcome, hrun, hout⟩ := read_older hinv hok hgt hans hcall
    exact ⟨_, outcome, chainOf, hrun, hsame, hout⟩

/-- The base page is the page as of a target below the whole list. -/
lemma Answerable.page_eq
    (hok : ListOk (node.kv req.tag) (parsed req.tag) (basePage req.tag) (redo req.tag) head chain)
    (hans : Answerable head req.lsn) :
    (if head.replayedLsn ≤ req.lsn then
        asOf (redo req.tag) (basePage req.tag) (parsed req.tag) req.lsn else basePage req.tag) =
      asOf (redo req.tag) (basePage req.tag) (parsed req.tag) req.lsn := by
  split_ifs with hle
  · rfl
  · obtain ⟨first, hfirst, hcond⟩ := hans
    obtain ⟨first', hfirst', _, hmin⟩ := hok.exists_first
    obtain rfl : first' = first := by simpa [hfirst'] using hfirst
    rw [if_neg (by omega)] at hcond
    exact (asOf_eq_base fun x hx => lt_of_lt_of_le (hcond.resolve_left hle) (hmin x hx)).symm

end ReadSpec

lemma read_unlisted (h : NodeOk basePage redo node parsed chainOf) {req : ReadRequest}
    (hnone : pageList node.map chainOf req.key = none) :
    readBufferCommon copy redo node req = some (node, .done (copy req.tag)) := by
  rcases hashMapGetBlockReplayList_spec h.map req.key req.lsn with
    ⟨_, hcall⟩ | ⟨head, chain, hlist, _⟩
  · simp [readBufferCommon, hcall]
  · rw [hnone] at hlist
    cases hlist

/-- A request, whatever it is for and however it ends, keeps the node in order. -/
lemma NodeOk.read (h : NodeOk basePage redo node parsed chainOf) {req : ReadRequest}
    (hcopy : (∀ v, node.kv req.tag v = none) → copy req.tag = basePage req.tag)
    {node' : Node Page} {outcome : Outcome Page}
    (hrun : readBufferCommon copy redo node req = some (node', outcome)) :
    ∃ chainOf', NodeOk basePage redo node' parsed chainOf' := by
  cases hlist : pageList node.map chainOf req.key with
  | none =>
      rw [read_unlisted h hlist, Option.some.injEq, Prod.mk.injEq] at hrun
      exact ⟨chainOf, hrun.1 ▸ h⟩
  | some list =>
      obtain ⟨_, _, chainOf', hcall, hok, _⟩ := read_spec h hcopy hlist
      rw [hcall, Option.some.injEq, Prod.mk.injEq] at hrun
      exact ⟨chainOf', hrun.1 ▸ hok⟩

/-! ## The vacuumer -/

/-- **A pass always finds the version it starts from**, and moves it forward. -/
theorem background_spec (h : NodeOk basePage redo node parsed chainOf) {iter : ℕ}
    {head : HashNodeHead} (hr : node.map.heads.read iter = some head)
    (hcopy : (∀ v, node.kv (tagOfKey head.key) v = none) →
      copy (tagOfKey head.key) = basePage (tagOfKey head.key)) :
    ∃ node' chainOf', backgroundReplayHeadNode copy redo node iter = some (node', .done ()) ∧
      NodeOk basePage redo node' parsed chainOf' := by
  obtain ⟨map, chainOf', head', lsnList, k, hcall, hup, hlist, hrep⟩ :=
    backgroundReplay_spec h.map hr
  obtain ⟨tag, hkey, htag, hok⟩ := h.page hlist
  have hinv := (h.map.pageList_inv hlist).1
  have happlied : lsnList = ((parsed tag).filter (head.core.replayedLsn < ·)).take
      maxReplayVersionSize := by rw [hrep.applied, hok.pending]
  have hpend : pendingLsns head' (unlinkFront ((chainOf iter).drop k)) =
      (parsed tag).filter (head'.replayedLsn < ·) := by
    rw [hrep.pending hinv, hok.pending, hrep.replayed, happlied]
    exact (filter_after_take (by decide) hok.sorted _).symm
  rw [hkey] at hup
  cases hl : lsnList.getLast? with
  | none =>
      have hsame : head'.replayedLsn = head.core.replayedLsn := by rw [hrep.replayed, hl]; rfl
      refine ⟨{ node with map := map }, chainOf', ?_, ?_⟩
      · simp [backgroundReplayHeadNode, hr, hcall, hl]
      · refine h.update_replayed hup (fun _ _ => rfl) ⟨hok.sorted, hok.positive, hpend, ?_, ?_,
          fun v => ?_⟩
        · rw [hrep.entries]
          exact hok.first
        · rw [hrep.maxLsn]
          exact hok.last
        · rw [hsame]
          exact hok.versions v
  | some last =>
      have hlast : head'.replayedLsn = last := by rw [hrep.replayed, hl]; rfl
      have hrange : lsnList = between head.core.replayedLsn last (parsed tag) := by
        rw [happlied]
        exact take_eq_between hok.sorted (happlied ▸ hl)
      have hin := mem_between.mp (hrange ▸ List.mem_of_getLast? hl)
      have happly : applyLsnList redo tag lsnList
          (asOf (redo tag) (basePage tag) (parsed tag) head.core.replayedLsn) =
          asOf (redo tag) (basePage tag) (parsed tag) last := by
        rw [hrange]
        exact asOf_extend hok.sorted hin.2.1.le
      refine ⟨⟨map, replaceVersion node.kv tag head.replayedLsn last
        (asOf (redo tag) (basePage tag) (parsed tag) last)⟩, chainOf', ?_, ?_⟩
      · rw [htag] at hcopy
        have hbase : replayBase copy node.kv tag head.replayedLsn =
            some (asOf (redo tag) (basePage tag) (parsed tag) head.core.replayedLsn) :=
          hok.replayBase_eq hcopy
        simp [backgroundReplayHeadNode, hr, hcall, hl, htag, hbase, happly]
      · refine h.update_replayed hup
          (fun t ht => replaceVersion_other ht head.replayedLsn last _) ?_
        rw [← hlast]
        exact hok.replayed head' (hlast ▸ hin.2.1) hpend hrep.entries hrep.maxLsn

/-! ## Runs -/

/-- The invariant along runs. -/
def StorageOk (basePage : BufferTag → Page) (redo : BufferTag → ℕ → Page → Page)
    (s : Storage Page) : Prop :=
  ∃ chainOf, NodeOk basePage redo s.node s.parsed chainOf

lemma StorageStep.inv {s s' : Storage Page} {op : StorageOp} (h : StorageOk basePage redo s)
    (hs : StorageStep basePage redo s op s') : StorageOk basePage redo s' := by
  obtain ⟨chainOf, h⟩ := h
  obtain ⟨horder, hrun⟩ := hs
  cases op with
  | parse tag lsn =>
      obtain ⟨node', chainOf', hcall, hok⟩ := parse_spec h horder.1 horder.2
      simp only [storageStep, hcall, Option.map_some, Option.some.injEq] at hrun
      subst hrun
      exact ⟨chainOf', hok⟩
  | read req =>
      obtain ⟨⟨node', outcome⟩, hcall, rfl⟩ := Option.map_eq_some_iff.mp hrun
      exact h.read (fun _ => rfl) hcall
  | background iter =>
      cases hr : s.node.map.heads.read iter with
      | none => simp [storageStep, backgroundReplayHeadNode, hr] at hrun
      | some head =>
          obtain ⟨node', chainOf', hcall, hok⟩ := background_spec h hr fun _ => rfl
          simp only [storageStep, hcall, Option.map_some, Option.some.injEq] at hrun
          subst hrun
          exact ⟨chainOf', hok⟩

lemma storage_reachable {n : ℕ} {hn : 0 < n} {tr : List StorageOp} {s : Storage Page}
    (hrun : Lts.Run (StorageStep basePage redo) (Storage.init Page n hn) tr s) :
    StorageOk basePage redo s :=
  hrun.invariant ⟨_, nodeOk_init n hn⟩ fun _ _ _ => StorageStep.inv

/-- **Versioned reads.**  In every state a run reaches, a request for an indexed page returns the
base page with exactly the page's records up to the target applied if and only if it is
answerable; otherwise it asks the store for a version that is not stored.  A background pass never
does. -/
theorem versioned_read {n : ℕ} {hn : 0 < n} {tr : List StorageOp} {s : Storage Page}
    (hrun : Lts.Run (StorageStep basePage redo) (Storage.init Page n hn) tr s) :
    (∀ req head, s.node.map.headOf req.key = some head →
      ∃ node' outcome, readBufferCommon basePage redo s.node req = some (node', outcome) ∧
        (Answerable head req.lsn ↔ outcome = .done (replay (redo req.tag)
          ((s.parsed req.tag).filter (· ≤ req.lsn)) (basePage req.tag))) ∧
        (¬ Answerable head req.lsn ↔ ∃ v, outcome = .missing req.tag v ∧
          s.node.kv req.tag v = none)) ∧
    ∀ iter head, s.node.map.heads.read iter = some head →
      ∃ node', backgroundReplayHeadNode basePage redo s.node iter = some (node', .done ()) := by
  obtain ⟨chainOf, h⟩ := storage_reachable hrun
  refine ⟨fun req head hhead => ?_, fun iter head hr => ?_⟩
  · obtain ⟨chain, hon⟩ := (headOf_eq_some h.map).mp hhead
    have hlist := (onList_iff_pageList h.map).mp ⟨head, hon, rfl⟩
    obtain ⟨node', outcome, chainOf', hcall, _, hout⟩ := read_spec h (fun _ => rfl) hlist
    -- the links between heads play no part
    have hout : ReadEnds basePage basePage redo s.node s.parsed head req outcome := hout
    refine ⟨node', outcome, hcall, ?_, ?_⟩
    · rcases hout with ⟨hans, rfl⟩ | ⟨hans, v, rfl, _⟩
      · obtain ⟨tag, _, htag, hok⟩ := h.page hlist
        obtain rfl : req.tag = tag := by rw [req.tag_eq, htag]
        have hpage := Answerable.page_eq hok (show Answerable head.core req.lsn from hans)
        exact iff_of_true hans (congrArg Outcome.done hpage)
      · exact iff_of_false hans (by simp)
    · rcases hout with ⟨hans, rfl⟩ | ⟨hans, v, rfl, hmiss⟩
      · exact iff_of_false (not_not.mpr hans) (by simp)
      · exact iff_of_true hans ⟨v, rfl, hmiss⟩
  · obtain ⟨node', _, hcall, _⟩ := background_spec h hr fun _ => rfl
    exact ⟨node', hcall⟩

end Reads

/-! ### Two reads -/

/-- A page that records which records were applied to it. -/
def logRedo (_ : BufferTag) (lsn : ℕ) (page : List ℕ) : List ℕ := page ++ [lsn]

/-- A run with such pages, from the start. -/
abbrev LogRun (tr : List StorageOp) (s : Storage (List ℕ)) : Prop :=
  Lts.Run (StorageStep (fun _ => []) logRedo) (Storage.init (List ℕ) 1023 buckets_pos) tr s

/-- Two records, read up to a point between them. -/
theorem versioned_read_between_records :
    ∃ s node', LogRun [.parse pageSeven 10, .parse pageSeven 20] s ∧
      readBufferCommon (fun _ => []) logRedo s.node (readSeven 15) = some (node', .done [10]) := by
  have hrun : ∃ s head, LogRun [.parse pageSeven 10, .parse pageSeven 20] s ∧
      s.node.map.headOf (ReadRequest.key (readSeven 15)) = some head ∧
      Answerable head 15 ∧ s.parsed pageSeven = [10, 20] :=
    ⟨_, _, .cons ⟨⟨show 1 ≤ 10 by decide, by decide⟩, rfl⟩
      (.cons ⟨⟨show 1 ≤ 20 by decide, by decide⟩, rfl⟩ .nil), rfl, ⟨10, rfl, by decide⟩, rfl⟩
  obtain ⟨s, head, hrun, hhead, hans, hparsed⟩ := hrun
  obtain ⟨node', outcome, hcall, hiff, _⟩ := (versioned_read hrun).1 (readSeven 15) head hhead
  have hout : outcome = .done (replay _ ((s.parsed pageSeven).filter (· ≤ 15)) []) := hiff.mp hans
  rw [hparsed] at hout
  exact ⟨s, node', hrun, by rw [hcall, hout]; rfl⟩

/-- Two records, read up to the second and then up to the first: the version at 10 was deleted
when the one at 20 was stored, and the second read asks for it. -/
theorem versioned_read_older_target_fails :
    ∃ s head node',
      LogRun [.parse pageSeven 10, .parse pageSeven 20, .read (readSeven 20)] s ∧
      s.node.map.headOf (ReadRequest.key (readSeven 10)) = some head ∧
      readBufferCommon (fun _ => []) logRedo s.node (readSeven 10) =
        some (node', .missing pageSeven 10) ∧
      s.node.kv pageSeven 10 = none :=
  ⟨_, _, _, .cons ⟨⟨show 1 ≤ 10 by decide, by decide⟩, rfl⟩
    (.cons ⟨⟨show 1 ≤ 20 by decide, by decide⟩, rfl⟩ (.cons ⟨trivial, rfl⟩ .nil)), rfl, rfl, rfl⟩

end GroundDB
