import GroundDB.PageStore.Volume

/-!
# Pages that are dropped and made again

`RpcTruncate` writes the size cache and nothing else, and `RpcMdExtend` writes the file, past the
buffer pool of the replay processes.  So a page that is truncated away and then made again keeps its
version list, its stored versions and its buffer.

The invariant of the runs is `VolumeOk`: a page that was made again has no list, and its file or
its buffer holds the new contents.  Parsing another page, a read, a pass of the vacuumer and the
buffer manager keep it (`VolumeOk.step`), and the extension establishes it if the page has neither
a list nor a buffer at that point.
-/

namespace GroundDB

open PtrHeap History Function

section Volume

variable {Page : Type}

/-! ## Pages without a list -/

/-- The map is well formed, and only pages the parser has seen have lists. -/
structure MapOk (m : HashMap) (chainOf : ℕ → EleNodes) : Prop where
  inv : MapInv m chainOf
  keys : ∀ key, pageList m chainOf key ≠ none → ∃ tag, key = keyOfTag tag

/-- From `m` to `m'` no page but those of `new` got a list. -/
structure ListsKept (m m' : HashMap) (new : KeyType → Prop) : Prop where
  ok : ∃ chainOf, MapOk m' chainOf
  unlisted : ∀ key, ¬ new key → m.headOf key = none → m'.headOf key = none

section Map

variable {m m' : HashMap} {chainOf chainOf' : ℕ → EleNodes} {key : KeyType}
  {list : Option (HashNodeHead × EleNodes)}

lemma ListsKept.refl (h : MapOk m chainOf) (new : KeyType → Prop) : ListsKept m m new :=
  ⟨⟨chainOf, h⟩, fun _ _ hnone => hnone⟩

lemma MapOk.pageUpdate (h : MapOk m chainOf) (hup : PageUpdate m chainOf key m' chainOf' list)
    (hkey : ∃ tag, key = keyOfTag tag) : MapOk m' chainOf' where
  inv := hup.inv
  keys k hk := by
    by_cases heq : k = key
    · exact heq ▸ hkey
    · exact h.keys k (by rwa [← hup.others k heq])

lemma MapOk.listsKept (h : MapOk m chainOf) (hup : PageUpdate m chainOf key m' chainOf' list)
    (hkey : ∃ tag, key = keyOfTag tag) {new : KeyType → Prop}
    (hnew : new key ∨ pageList m chainOf key ≠ none) : ListsKept m m' new where
  ok := ⟨chainOf', h.pageUpdate hup hkey⟩
  unlisted k hk hnone := by
    have hne : k ≠ key := by
      rintro rfl
      rcases hnew with hnew | hlisted
      · exact hk hnew
      · exact hlisted (pageList_eq_none_iff.mpr hnone)
    rw [← pageList_eq_none_iff, hup.others k hne]
    exact pageList_eq_none_iff.mpr hnone

lemma ListsKept.trans {m'' : HashMap} {new : KeyType → Prop} (h : ListsKept m m' new)
    (h' : ListsKept m' m'' new) : ListsKept m m'' new :=
  ⟨h'.ok, fun key hk hnone => h'.unlisted key hk (h.unlisted key hk hnone)⟩

end Map

variable {redo : BufferTag → ℕ → Page → Page} {basePage : BufferTag → Page} {node : Node Page}
  {chainOf : ℕ → EleNodes}

lemma parse_listsKept (h : MapOk node.map chainOf) {tag : BufferTag} {lsn : ℕ} (hlsn : 1 ≤ lsn)
    {node' : Node Page} (hrun : parseXLogBlocksLsn node tag lsn = some node') :
    ListsKept node.map node'.map (· = keyOfTag tag) := by
  rcases hashMapInsertKey_spec h.inv (keyOfTag tag) 0 true fun _ => hlsn with
    ⟨_, m', chainOf', _, hcall, hup⟩ | ⟨_, _, _, m', chainOf', _, _, hcall, hup, _⟩
  all_goals
    simp only [parseXLogBlocksLsn, hcall, Option.bind_eq_bind, Option.bind_some,
      Option.some.injEq] at hrun
    subst hrun
    exact h.listsKept hup ⟨tag, rfl⟩ (.inl rfl)

lemma read_listsKept (h : MapOk node.map chainOf) {req : ReadRequest} {node' : Node Page}
    {outcome : Outcome Page}
    (hrun : readBufferCommon basePage redo node req = some (node', outcome)) :
    ListsKept node.map node'.map fun _ => False := by
  rcases hashMapGetBlockReplayList_spec h.inv req.key req.lsn with
    ⟨hnone, hcall⟩ | ⟨head, chain, hlist, map, answer, hcall, hans, hup⟩
  · simp only [readBufferCommon, hcall, Option.bind_eq_bind, Option.bind_some,
      Option.some.injEq, Prod.mk.injEq] at hrun
    obtain ⟨rfl, -⟩ := hrun
    exact ListsKept.refl h _
  · have hlisted : pageList node.map chainOf req.key ≠ none := by simp [hlist]
    have hkey := h.keys _ hlisted
    have hmap : ListsKept node.map map fun _ => False := h.listsKept hup hkey (.inr hlisted)
    simp only [readBufferCommon, hcall, Option.bind_eq_bind, Option.bind_some] at hrun
    split at hrun
    · obtain ⟨rfl, -⟩ := by simpa using hrun
      exact hmap
    · rename_i list hresult
      split at hrun
      · split at hrun <;> (obtain ⟨rfl, -⟩ := by simpa using hrun) <;> exact hmap
      · split at hrun
        · obtain ⟨rfl, -⟩ := by simpa using hrun
          exact hmap
        · -- the replayed version is recorded under an LSN of the list
          obtain ⟨lastLsn, hlast, hrun⟩ := Option.bind_eq_some_iff.mp hrun
          have hle := (answer_lsns (h.inv.pageList_inv hlist).1 hans hresult lastLsn
            (List.mem_of_getElem? hlast)).2
          obtain ⟨map', chainOf', hupd, hup'⟩ :=
            hashMapUpdateReplayedLsn_spec hup.inv hup.here hle true
          simp only [hupd, Option.bind_some, Option.some.injEq, Prod.mk.injEq] at hrun
          obtain ⟨rfl, -⟩ := hrun
          have hok := h.pageUpdate hup hkey
          exact hmap.trans (hok.listsKept hup' hkey (.inr (by rw [hup.here]; simp)))

lemma background_listsKept (h : MapOk node.map chainOf) {iter : ℕ} {node' : Node Page}
    {outcome : Outcome Unit}
    (hrun : backgroundReplayHeadNode basePage redo node iter = some (node', outcome)) :
    ListsKept node.map node'.map fun _ => False := by
  simp only [backgroundReplayHeadNode] at hrun
  obtain ⟨head, hr, hrun⟩ := Option.bind_eq_some_iff.mp hrun
  obtain ⟨m', chainOf', _, lsnList, _, hcall, hup, hlist, _⟩ := backgroundReplay_spec h.inv hr
  have hlisted : pageList node.map chainOf head.key ≠ none := by simp [hlist]
  have hmap : ListsKept node.map m' fun _ => False :=
    h.listsKept hup (h.keys _ hlisted) (.inr hlisted)
  simp only [hcall, Option.bind_eq_bind, Option.bind_some] at hrun
  split at hrun
  · obtain ⟨rfl, -⟩ := by simpa using hrun
    exact hmap
  · split at hrun <;> (obtain ⟨rfl, -⟩ := by simpa using hrun) <;> exact hmap

/-- A request for a page without a list, whatever key it uses for it. -/
lemma unlisted_request (h : MapOk node.map chainOf) {req : ReadRequest}
    (hnone : node.map.headOf (keyOfTag req.tag) = none) :
    hashMapGetBlockReplayList node.map req.key req.lsn = some (node.map, ⟨none, []⟩) := by
  rcases hashMapGetBlockReplayList_spec h.inv req.key req.lsn with ⟨_, hcall⟩ | ⟨_, _, hlist, _⟩
  · exact hcall
  · obtain ⟨tag, htag⟩ := h.keys req.key (by rw [hlist]; simp)
    have hreq : req.tag = tag := by rw [ReadRequest.tag_eq, htag, tagOfKey_keyOfTag]
    rw [hreq, ← htag, ← pageList_eq_none_iff, hlist] at hnone
    cases hnone

/-! ## The buffer of a page without a list -/

/-- The page has no list, and `page` is what the replay processes hold of it. -/
structure Holds (v : Volume Page) (tag : BufferTag) (page : Page) : Prop where
  unlisted : v.node.map.headOf (keyOfTag tag) = none
  copy : Copy v tag page

variable {v v' : Volume Page} {tag : BufferTag} {page : Page}

lemma Holds.read (h : Holds v tag page) (hok : MapOk v.node.map chainOf) {req : ReadRequest}
    (hreq : req.tag = tag) :
    readBufferCommon v.basePage redo v.node req = some (v.node, .done page) := by
  subst hreq
  simp [readBufferCommon, unlisted_request hok h.unlisted, h.copy.basePage_eq]

lemma Holds.afterRead (h : Holds v tag page) (hok : MapOk v.node.map chainOf) (req : ReadRequest)
    {node' : Node Page} (hkept : ListsKept v.node.map node'.map fun _ => False) :
    Holds { v with
      node := node'
      pool := update v.pool req.tag (v.bufferAfterRead redo req) } tag page := by
  refine ⟨hkept.unlisted _ not_false h.unlisted, ?_⟩
  by_cases hreq : tag = req.tag
  · -- without a list the page is looked up in the pool and loaded if it is not there
    subst hreq
    refine h.copy.load ?_ rfl
    simp [Volume.bufferAfterRead, unlisted_request hok h.unlisted]
  · exact h.copy.congr (update_of_ne hreq _ _) rfl

/-- A pass of the vacuumer keeps it: the pass is about a page with a list. -/
lemma Holds.afterPass (h : Holds v tag page) (hok : MapOk v.node.map chainOf) {iter : ℕ}
    {head : HashNodeHead} (hr : v.node.map.heads.read iter = some head)
    {node' : Node Page} (hkept : ListsKept v.node.map node'.map fun _ => False) :
    Holds { v with
      node := node'
      pool := update v.pool (tagOfKey head.key) (v.bufferAfterPass redo iter head) }
      tag page := by
  have hne : tag ≠ tagOfKey head.key := by
    rintro rfl
    obtain ⟨_, _, _, _, _, _, _, hlist, _⟩ := backgroundReplay_spec hok.inv hr
    obtain ⟨t, ht⟩ := hok.keys head.key (by rw [hlist]; simp)
    have hnone := h.unlisted
    rw [ht, tagOfKey_keyOfTag, ← ht, ← pageList_eq_none_iff, hlist] at hnone
    cases hnone
  exact ⟨hkept.unlisted _ not_false h.unlisted,
    h.copy.congr (update_of_ne hne _ _) rfl⟩

/-! ## Runs -/

/-- What happened to a page: not truncated, or a record parsed since; truncated; made again. -/
inductive Recreation (Page : Type)
  | untouched
  | truncated
  | recreated (page : Page)

/-- The page is written by an extension; only one that was truncated before is made again. -/
def Recreation.extended (st : Recreation Page) (page : Page) : Recreation Page :=
  match st with
  | .untouched => .untouched
  | .truncated | .recreated _ => .recreated page

/-- A record on the page: it hides what an extension wrote, and does not undo a truncation. -/
def Recreation.parsed : Recreation Page → Recreation Page
  | .truncated => .truncated
  | .untouched | .recreated _ => .untouched

lemma Recreation.parsed_ne (st : Recreation Page) (page : Page) : st.parsed ≠ .recreated page := by
  cases st <;> simp [Recreation.parsed]

lemma Recreation.of_extended {st : Recreation Page} {content page : Page}
    (h : st.extended content = .recreated page) : content = page := by
  cases st with
  | untouched => cases h
  | truncated => exact Recreation.recreated.inj h
  | recreated _ => exact Recreation.recreated.inj h

/-- One operation: a truncation below the page, an extension by it, a record on it. -/
def Recreation.next (tag : BufferTag) (st : Recreation Page) :
    VolumeOp Page → Recreation Page
  | .truncate rel blknum =>
    if rel = tag.relTag ∧ blknum.toUInt32 ≤ tag.blockNum then .truncated else st
  | .extend t page => if t = tag then st.extended page else st
  | .parse t _ => if t = tag then st.parsed else st
  | .read _ | .background _ | .flush _ | .evict _ => st

/-- What a history did to a page. -/
def recreation (tag : BufferTag) (ops : List (VolumeOp Page)) : Recreation Page :=
  ops.foldl (Recreation.next tag) .untouched

lemma recreation_snoc (tag : BufferTag) (ops : List (VolumeOp Page)) (op : VolumeOp Page) :
    recreation tag (ops ++ [op]) = (recreation tag ops).next tag op := by
  simp [recreation, List.foldl_append]

/-- The extensions that are seen: the page has neither a version list nor a buffer. -/
def ExtendsFresh (tag : BufferTag) (v : Volume Page) : VolumeOp Page → Prop
  | .extend t _ => t = tag → v.node.map.headOf (keyOfTag tag) = none ∧ v.pool tag = none
  | _ => True

/-- The invariant: a page that was made again is held, in its new contents. -/
structure VolumeOk (tag : BufferTag) (ops : List (VolumeOp Page)) (v : Volume Page) : Prop where
  map : ∃ chainOf, MapOk v.node.map chainOf
  holds : ∀ page, recreation tag ops = .recreated page → Holds v tag page

/-- Every step keeps the invariant if the extensions of the page are seen. -/
lemma VolumeOk.step {ops : List (VolumeOp Page)} {op : VolumeOp Page} (h : VolumeOk tag ops v)
    (hfresh : ExtendsFresh tag v op) (hstep : volumeStep redo v op = some v') :
    VolumeOk tag (ops ++ [op]) v' := by
  obtain ⟨⟨chainOf, hok⟩, hholds⟩ := h
  cases op with
  | parse t lsn =>
      simp only [volumeStep] at hstep
      split at hstep
      · rename_i hlsn
        obtain ⟨node', hrun, rfl⟩ := Option.map_eq_some_iff.mp hstep
        have hkept := parse_listsKept hok hlsn hrun
        refine ⟨hkept.ok, fun page hrec => ?_⟩
        rw [recreation_snoc, Recreation.next] at hrec
        split at hrec
        · exact absurd hrec (Recreation.parsed_ne _ _)
        · rename_i hne
          have hold := hholds page hrec
          have hkey : keyOfTag tag ≠ keyOfTag t := fun heq => hne (keyOfTag_injective heq).symm
          exact ⟨hkept.unlisted _ hkey hold.unlisted, hold.copy.congr rfl rfl⟩
      · cases hstep
  | read req =>
      obtain ⟨⟨node', outcome⟩, hrun, rfl⟩ := Option.map_eq_some_iff.mp hstep
      have hkept := read_listsKept hok hrun
      refine ⟨hkept.ok, fun page hrec => ?_⟩
      rw [recreation_snoc] at hrec
      exact (hholds page hrec).afterRead hok req hkept
  | background iter =>
      obtain ⟨head, hr, hstep⟩ := Option.bind_eq_some_iff.mp hstep
      obtain ⟨⟨node', outcome⟩, hrun, hstep⟩ := Option.bind_eq_some_iff.mp hstep
      obtain rfl := Option.some.inj hstep
      have hkept := background_listsKept hok hrun
      refine ⟨hkept.ok, fun page hrec => ?_⟩
      rw [recreation_snoc] at hrec
      exact (hholds page hrec).afterPass hok hr hkept
  | truncate rel blknum =>
      obtain rfl := Option.some.inj hstep
      refine ⟨⟨chainOf, hok⟩, fun page hrec => ?_⟩
      rw [recreation_snoc, Recreation.next] at hrec
      split at hrec
      · cases hrec
      · exact ⟨(hholds page hrec).unlisted, (hholds page hrec).copy.congr rfl rfl⟩
  | extend t content =>
      obtain rfl := Option.some.inj hstep
      refine ⟨⟨chainOf, hok⟩, fun page hrec => ?_⟩
      rw [recreation_snoc, Recreation.next] at hrec
      split at hrec
      · rename_i ht
        subst ht
        obtain ⟨hunlisted, hpool⟩ := hfresh rfl
        obtain rfl := Recreation.of_extended hrec
        exact ⟨hunlisted, by simp [hpool], fun _ => update_self ..⟩
      · rename_i hne
        exact ⟨(hholds page hrec).unlisted,
          (hholds page hrec).copy.congr rfl (update_of_ne (Ne.symm hne) _ _)⟩
  | flush t =>
      obtain rfl := Option.some.inj hstep
      refine ⟨⟨chainOf, hok⟩, fun page hrec => ?_⟩
      rw [recreation_snoc] at hrec
      exact ⟨(hholds page hrec).unlisted, (hholds page hrec).copy.afterWrite t fst_of_cleaned⟩
  | evict t =>
      obtain rfl := Option.some.inj hstep
      refine ⟨⟨chainOf, hok⟩, fun page hrec => ?_⟩
      rw [recreation_snoc] at hrec
      exact ⟨(hholds page hrec).unlisted,
        (hholds page hrec).copy.afterWrite t (by rintro _ ⟨⟩)⟩

end Volume

end GroundDB
