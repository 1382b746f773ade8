import GroundDB.PageStore.Reads
import GroundDB.RelSize.Parse

/-!
# The copies of the replay processes

The base page of a read is what the replay processes have: a copy in their shared buffer pool, or
else the file.  A replay leaves its page in the pool, from where it is written to the file, so what
they have for a page moves with its versions.

`VersionedCopy` is the invariant of the runs: the node is in order, for base pages that need not be
those in the files any more, and the copy of a page is the version that is stored for it, or its
base page if none is stored.  It speaks about one page, and holds as long as only replays of that
page and extensions by it change its copy (`OwnCopy`): a replay of another page that has to redo a
record whole leaves all pages of that record in the pool.
-/

namespace GroundDB

open PtrHeap History Overlay Function

section Volume

variable {Page : Type}

/-- The storage node with what its replay processes hold: the file contents, the buffer pool with
the dirty flag of every buffer, and the size cache. -/
structure Volume (Page : Type) where
  node : Node Page
  files : BufferTag → Page
  pool : BufferTag → Option (Page × Bool)
  sizes : RelSizeTable

namespace Volume

variable (redo : BufferTag → ℕ → Page → Page) (v : Volume Page) (tag : BufferTag)

/-- `GetPage` of the replay process: the buffer, or else the file. -/
def basePage : BufferTag → Page := view (fun t => (v.pool t).map Prod.fst) v.files

/-- The buffer of a page after a list of LSNs was applied to it. -/
def replayed (replayedLsn : ℕ) (lsnList : List ℕ) : Option (Page × Bool) :=
  match replayBase v.basePage v.node.kv tag replayedLsn with
  | none => v.pool tag
  | some base => some (applyLsnList redo tag lsnList base, true)

/-- The buffer of the requested page after `ReadBufferCommon`. -/
def bufferAfterRead (req : ReadRequest) : Option (Page × Bool) :=
  match hashMapGetBlockReplayList v.node.map req.key req.lsn with
  | none => v.pool req.tag
  | some (_, answer) =>
    match answer.result with
    | none => some ((v.pool req.tag).getD (v.files req.tag, false))
    | some list =>
      if list.listLen = 0 then v.pool req.tag
      else v.replayed redo req.tag list.replayedLsn list.toReplayList

/-- The buffer of the page of `head` after a pass of the vacuumer over its list. -/
def bufferAfterPass (iter : ℕ) (head : HashNodeHead) : Option (Page × Bool) :=
  match backgroundReplay v.node.map iter with
  | none | some (_, []) => v.pool (tagOfKey head.key)
  | some (_, lsnList) => v.replayed redo (tagOfKey head.key) head.replayedLsn lsnList

/-- The file block of a page once its buffer is written, which it is only if it is dirty. -/
def written : Page :=
  match v.pool tag with
  | some (page, true) => page
  | _ => v.files tag

end Volume

/-- The operations: those of the storage node, a truncation, an extension, and the buffer manager of
the replay processes writing or dropping a buffer. -/
inductive VolumeOp (Page : Type)
  | parse (tag : BufferTag) (lsn : ℕ)
  | read (req : ReadRequest)
  | background (iter : ℕ)
  | truncate (rel : RelTag) (blknum : Int32)
  | extend (tag : BufferTag) (page : Page)
  | flush (tag : BufferTag)
  | evict (tag : BufferTag)

variable (redo : BufferTag → ℕ → Page → Page)

/-- The effect of an operation. -/
def volumeStep (v : Volume Page) : VolumeOp Page → Option (Volume Page)
  | .parse tag lsn =>
    if 1 ≤ lsn then (parseXLogBlocksLsn v.node tag lsn).map fun node => { v with node := node }
    else none
  | .read req => (readBufferCommon v.basePage redo v.node req).map fun r =>
      { v with node := r.1, pool := update v.pool req.tag (v.bufferAfterRead redo req) }
  | .background iter => do
    let head ← v.node.map.heads.read iter
    let r ← backgroundReplayHeadNode v.basePage redo v.node iter
    some { v with
      node := r.1
      pool := update v.pool (tagOfKey head.key) (v.bufferAfterPass redo iter head) }
  | .truncate rel blknum => some { v with sizes := rpcTruncate v.sizes rel blknum }
  | .extend tag page => some { v with files := update v.files tag page }
  | .flush tag => some { v with
      files := update v.files tag (v.written tag)
      pool := update v.pool tag ((v.pool tag).map fun b => (b.1, false)) }
  | .evict tag => some { v with
      files := update v.files tag (v.written tag)
      pool := update v.pool tag none }

/-- The node before anything is parsed. -/
def Volume.init (n : ℕ) (hn : 0 < n) (files : BufferTag → Page) : Volume Page where
  node := { map := hashMapInit n hn, kv := fun _ _ => none }
  files := files
  pool := fun _ => none
  sizes := fun _ => none

variable {redo} {v v' : Volume Page} {tag : BufferTag} {page : Page}

/-! ## The copy of a page -/

/-- `page` is what the file or the buffer of a page holds: the buffer if there is one, and the file
unless the buffer is dirty. -/
structure Copy (v : Volume Page) (tag : BufferTag) (page : Page) : Prop where
  buffer : ∀ b, v.pool tag = some b → b.1 = page
  file : (∀ p, v.pool tag ≠ some (p, true)) → v.files tag = page

lemma Copy.basePage_eq (h : Copy v tag page) : v.basePage tag = page := by
  cases hp : v.pool tag with
  | none =>
      have hfile := h.file (by simp [hp])
      simpa [Volume.basePage, view, hp] using hfile
  | some b =>
      have hbuf := h.buffer b hp
      simpa [Volume.basePage, view, hp] using hbuf

lemma Copy.congr (h : Copy v tag page) (hpool : v'.pool tag = v.pool tag)
    (hfile : v'.files tag = v.files tag) : Copy v' tag page where
  buffer := by rw [hpool]; exact h.buffer
  file := by rw [hpool, hfile]; exact h.file

lemma Copy.of_dirty (hpool : v.pool tag = some (page, true)) : Copy v tag page where
  buffer := by simp [hpool]
  file hclean := absurd hpool (hclean page)

/-- Loading the page into the pool, if it is not there, keeps the copy. -/
lemma Copy.load (h : Copy v tag page)
    (hpool : v'.pool tag = some ((v.pool tag).getD (v.files tag, false)))
    (hfile : v'.files tag = v.files tag) : Copy v' tag page := by
  cases hp : v.pool tag with
  | none =>
      have hcopy := h.file (by simp [hp])
      exact ⟨by simp [hpool, hp, hcopy], fun _ => by rw [hfile, hcopy]⟩
  | some b =>
      rw [hp, Option.getD_some, ← hp] at hpool
      exact h.congr hpool hfile

/-- Writing back or dropping a buffer, of this page or of another one, keeps the copy. -/
lemma Copy.afterWrite (h : Copy v tag page) (t : BufferTag) {c : Option (Page × Bool)}
    (hc : ∀ b, c = some b → (v.pool t).map Prod.fst = some b.1) :
    Copy { v with
      files := update v.files t (v.written t)
      pool := update v.pool t c } tag page := by
  by_cases ht : tag = t
  · subst ht
    have hfile : v.written tag = page := by
      simp only [Volume.written]
      split
      · rename_i p hp
        exact h.buffer _ hp
      · rename_i hclean
        exact h.file hclean
    refine ⟨?_, fun _ => ?_⟩
    · intro b hb
      obtain ⟨b', hb', heq⟩ := Option.map_eq_some_iff.mp (hc b (by simpa using hb))
      rw [← heq]
      exact h.buffer b' hb'
    · simpa using hfile
  · exact h.congr (update_of_ne ht _ _) (update_of_ne ht _ _)

lemma fst_of_cleaned {t : BufferTag} (b : Page × Bool)
    (hb : ((v.pool t).map fun b => (b.1, false)) = some b) :
    (v.pool t).map Prod.fst = some b.1 := by
  obtain ⟨b', hb', rfl⟩ := Option.map_eq_some_iff.mp hb
  rw [hb']
  rfl

/-! ## What a replay leaves behind -/

/-- A replay of `tag` either leaves its versions alone and at most loads its buffer, or stores a
version that is also in its buffer. -/
structure Moved (v : Volume Page) (tag : BufferTag) (kv : KvStore Page)
    (buffer : Option (Page × Bool)) : Prop where
  others : ∀ t, t ≠ tag → kv t = v.node.kv t
  here : (kv tag = v.node.kv tag ∧
      (buffer = v.pool tag ∨ buffer = some ((v.pool tag).getD (v.files tag, false)))) ∨
    ∃ last page, kv tag last = some page ∧ buffer = some (page, true)

lemma Moved.of_eq {buffer : Option (Page × Bool)} (h : buffer = v.pool tag) :
    Moved v tag v.node.kv buffer :=
  ⟨fun _ _ => rfl, .inl ⟨rfl, .inl h⟩⟩

lemma Moved.of_replaced {replayedLsn lastLsn : ℕ} (hlt : replayedLsn < lastLsn) :
    Moved v tag (replaceVersion v.node.kv tag replayedLsn lastLsn page) (some (page, true)) where
  others _ ht := replaceVersion_other ht replayedLsn lastLsn page
  here := by
    refine .inr ⟨lastLsn, page, ?_, rfl⟩
    unfold replaceVersion
    split_ifs <;> simp [hlt.ne']

/-- The LSNs a lookup hands out are above its base version, and on the list. -/
lemma answer_lsns {eles : Heap HashNodeEle} {head : HashNodeHead}
    {chain : EleNodes} {targetLsn : ℕ} {answer : ReplayAnswer} {list : ReplayList}
    (hinv : VersionListInv eles head chain)
    (hans : getBlockReplayList head eles targetLsn = some answer)
    (hlist : answer.result = some list) :
    ∀ x ∈ list.toReplayList, list.replayedLsn < x ∧ x ≤ head.maxLsn := by
  rcases lt_trichotomy head.replayedLsn targetLsn with hlt | heq | hgt
  · rw [getBlockReplayList_newer hinv hlt] at hans
    obtain rfl := Option.some.inj hans
    obtain rfl := Option.some.inj hlist
    intro x hx
    exact ⟨(mem_between.mp hx).2.1, hinv.le_maxLsn (mem_between.mp hx).1⟩
  · subst heq
    rw [getBlockReplayList_same] at hans
    obtain rfl := Option.some.inj hans
    obtain rfl := Option.some.inj hlist
    intro x hx
    cases hx
  · rw [getBlockReplayList_older hinv hgt] at hans
    obtain rfl := Option.some.inj hans
    split at hlist
    · obtain rfl := Option.some.inj hlist
      intro x hx
      cases hx
    · cases hlist

variable {chainOf : ℕ → EleNodes}

lemma read_moved (h : MapInv v.node.map chainOf) {req : ReadRequest} {node' : Node Page}
    {outcome : Outcome Page}
    (hrun : readBufferCommon v.basePage redo v.node req = some (node', outcome)) :
    Moved v req.tag node'.kv (v.bufferAfterRead redo req) := by
  have hload : Moved v req.tag v.node.kv (some ((v.pool req.tag).getD (v.files req.tag, false))) :=
    ⟨fun _ _ => rfl, .inl ⟨rfl, .inr rfl⟩⟩
  rcases hashMapGetBlockReplayList_spec h req.key req.lsn with
    ⟨_, hcall⟩ | ⟨head, chain, hlist, map, answer, hcall, hans, _⟩
  · simp only [readBufferCommon, hcall, Option.bind_eq_bind, Option.bind_some,
      Option.some.injEq, Prod.mk.injEq] at hrun
    obtain ⟨rfl, -⟩ := hrun
    simpa only [Volume.bufferAfterRead, hcall] using hload
  · simp only [readBufferCommon, hcall, Option.bind_eq_bind, Option.bind_some] at hrun
    simp only [Volume.bufferAfterRead, hcall]
    cases hresult : answer.result with
    | none =>
        simp only [hresult, Option.some.injEq, Prod.mk.injEq] at hrun
        obtain ⟨rfl, -⟩ := hrun
        exact hload
    | some list =>
        simp only [hresult] at hrun ⊢
        split_ifs at hrun ⊢
        · split at hrun <;> (obtain ⟨rfl, -⟩ := by simpa using hrun) <;> exact .of_eq rfl
        · simp only [Volume.replayed]
          split at hrun
          · rename_i hbase
            obtain ⟨rfl, -⟩ := by simpa using hrun
            simpa only [hbase] using Moved.of_eq rfl
          · rename_i base hbase
            obtain ⟨lastLsn, hlast, hrun⟩ := Option.bind_eq_some_iff.mp hrun
            obtain ⟨⟨map', _, _⟩, _, hrun⟩ := Option.bind_eq_some_iff.mp hrun
            obtain ⟨rfl, -⟩ := by simpa using hrun
            have hlt := (answer_lsns (h.pageList_inv hlist).1 hans hresult lastLsn
              (List.mem_of_getElem? hlast)).1
            simpa only [hbase] using Moved.of_replaced hlt

lemma background_moved (h : MapInv v.node.map chainOf) {iter : ℕ} {head : HashNodeHead}
    (hr : v.node.map.heads.read iter = some head) {node' : Node Page} {outcome : Outcome Unit}
    (hrun : backgroundReplayHeadNode v.basePage redo v.node iter = some (node', outcome)) :
    Moved v (tagOfKey head.key) node'.kv (v.bufferAfterPass redo iter head) := by
  obtain ⟨map, _, _, lsnList, _, hcall, _, _, hrep⟩ := backgroundReplay_spec h hr
  simp only [backgroundReplayHeadNode, hr, hcall, Option.bind_eq_bind, Option.bind_some] at hrun
  simp only [Volume.bufferAfterPass, hcall]
  cases hl : lsnList.getLast? with
  | none =>
      obtain rfl := List.getLast?_eq_none_iff.mp hl
      obtain ⟨rfl, -⟩ := by simpa using hrun
      exact .of_eq rfl
  | some lastLsn =>
      have hpending : lastLsn ∈ pendingLsns head.core (chainOf iter) := by
        have hmem := List.mem_of_getLast? hl
        rw [hrep.applied] at hmem
        exact List.mem_of_mem_take hmem
      have hlt : head.replayedLsn < lastLsn := (mem_pendingLsns.mp hpending).2
      obtain ⟨x, xs, rfl⟩ := List.exists_cons_of_ne_nil
        (show lsnList ≠ [] by rintro rfl; cases hl)
      simp only [hl] at hrun
      simp only [Volume.replayed]
      split at hrun
      · rename_i hbase
        obtain ⟨rfl, -⟩ := by simpa using hrun
        simpa only [hbase] using Moved.of_eq rfl
      · rename_i base hbase
        obtain ⟨rfl, -⟩ := by simpa using hrun
        simpa only [hbase] using Moved.of_replaced hlt

/-! ## The copy and the versions -/

/-- The copy of a page is the version stored for it, or its base page if none is. -/
structure CopyOk (base : Page) (v : Volume Page) (tag : BufferTag) : Prop where
  stored : ∀ lsn page, v.node.kv tag lsn = some page → Copy v tag page
  unstored : (∀ lsn, v.node.kv tag lsn = none) → Copy v tag base

variable {base : Page}

lemma CopyOk.mono (h : CopyOk base v tag) (hkv : v'.node.kv tag = v.node.kv tag)
    (hcopy : ∀ page, Copy v tag page → Copy v' tag page) : CopyOk base v' tag where
  stored lsn page hstored := hcopy page (h.stored lsn page (hkv ▸ hstored))
  unstored hnone := hcopy base (h.unstored (hkv ▸ hnone))

/-- A replay, of this page or of another one, where only one version is stored. -/
lemma CopyOk.moved (h : CopyOk base v tag) {t : BufferTag} {node' : Node Page}
    {buffer : Option (Page × Bool)} (hm : Moved v t node'.kv buffer)
    (hone : ∀ lsn lsn' page page', node'.kv tag lsn = some page →
      node'.kv tag lsn' = some page' → page = page') :
    CopyOk base { v with node := node', pool := update v.pool t buffer } tag := by
  by_cases ht : tag = t
  · subst ht
    rcases hm.here with ⟨hkv, hsame | hload⟩ | ⟨last, page, hlast, hdirty⟩
    · refine h.mono hkv fun page hc => hc.congr ?_ rfl
      rw [hsame, update_eq_self]
    · refine h.mono hkv fun page hc => hc.load ?_ rfl
      rw [hload]
      exact update_self ..
    · have hcopy : Copy { v with node := node', pool := update v.pool tag buffer }
          tag page := Copy.of_dirty (by rw [hdirty]; exact update_self ..)
      refine ⟨fun lsn page' hstored => ?_, fun hnone => ?_⟩
      · rw [hone lsn last page' page hstored hlast]
        exact hcopy
      · rw [hnone last] at hlast
        cases hlast
  · exact h.mono (hm.others tag ht) fun page hc => hc.congr (update_of_ne ht _ _) rfl

/-- A base page matters only once a version was made from it. -/
lemma NodeOk.rebase {basePage basePage' : BufferTag → Page} {node : Node Page}
    {parsed : BufferTag → List ℕ} (h : NodeOk basePage redo node parsed chainOf)
    (hsame : ∀ t, basePage' t = basePage t ∨ ∀ lsn, node.kv t lsn = none) :
    NodeOk basePage' redo node parsed chainOf := by
  refine ⟨h.map, h.keys, fun t => ?_⟩
  rcases hsame t with heq | hnone
  · rw [heq]
    exact h.pages t
  · have hpage := h.pages t
    cases hlist : pageList node.map chainOf (keyOfTag t) with
    | none =>
        rw [hlist] at hpage
        exact hpage
    | some list =>
        rw [hlist] at hpage
        have hok : ListOk (node.kv t) (parsed t) (basePage t) (redo t) list.1 list.2 := hpage
        refine ⟨hok.sorted, hok.positive, hok.pending, hok.first, hok.last, fun lsn => ?_⟩
        have hlsn := hok.versions lsn
        rw [hnone lsn] at hlsn ⊢
        split_ifs at hlsn ⊢
        rfl

lemma NodeOk.one_version {basePage : BufferTag → Page} {node : Node Page}
    {parsed : BufferTag → List ℕ} (h : NodeOk basePage redo node parsed chainOf) (lsn lsn' : ℕ)
    (page page' : Page) (hp : node.kv tag lsn = some page) (hp' : node.kv tag lsn' = some page') :
    page = page' := by
  have hpage := h.pages tag
  cases hlist : pageList node.map chainOf (keyOfTag tag) with
  | none =>
      rw [hlist] at hpage
      rw [hpage.2 lsn] at hp
      cases hp
  | some list =>
      rw [hlist] at hpage
      have hok : ListOk (node.kv tag) (parsed tag) (basePage tag) (redo tag) list.1 list.2 := hpage
      rw [hok.versions] at hp hp'
      split_ifs at hp hp' with hlsn hlsn'
      rw [hlsn.1] at hp
      rw [hlsn'.1] at hp'
      exact Option.some.inj (hp.symm.trans hp')

/-! ## Runs -/

/-- The storage node with its copies, and the LSNs it has parsed for each page. -/
structure ReplayNode (Page : Type) where
  volume : Volume Page
  parsed : BufferTag → List ℕ

/-- The node and what it has parsed. -/
def ReplayNode.storage (s : ReplayNode Page) : Storage Page := ⟨s.volume.node, s.parsed⟩

/-- The operations, and what a replay of another page leaves in the pool when it redoes a record of
this page whole. -/
inductive ReplayOp (Page : Type)
  | volume (op : VolumeOp Page)
  | redoneWhole (tag : BufferTag) (page : Page)

variable (redo) in
/-- The effect of an operation. -/
def replayStep (s : ReplayNode Page) : ReplayOp Page → Option (ReplayNode Page)
  | .volume (.parse tag lsn) => (volumeStep redo s.volume (.parse tag lsn)).map fun v =>
      { volume := v
        parsed := update s.parsed tag
          (if lsn ∈ s.parsed tag then s.parsed tag else s.parsed tag ++ [lsn]) }
  | .volume op => (volumeStep redo s.volume op).map fun v => { s with volume := v }
  | .redoneWhole tag page => some { s with volume := { s.volume with
      pool := update s.volume.pool tag (some (page, true)) } }

variable (redo) in
/-- One step of a run. -/
def ReplayStep (s : ReplayNode Page) (op : ReplayOp Page) (s' : ReplayNode Page) : Prop :=
  replayStep redo s op = some s'

/-- The node before anything is parsed. -/
def ReplayNode.init (n : ℕ) (hn : 0 < n) (files : BufferTag → Page) : ReplayNode Page :=
  ⟨Volume.init n hn files, fun _ => []⟩

/-- Records are parsed in WAL order, and the copy of the page `tag` is its own: no replay of another
page redoes a record of it whole, and it is extended only while it has neither a version list nor a
buffer, by a page of the kind `Base`. -/
def OwnCopy (Base : Page → Prop) (tag : BufferTag) (s : ReplayNode Page) : ReplayOp Page → Prop
  | .volume (.parse t lsn) => InWalOrder s.storage (.parse t lsn)
  | .volume (.extend t page) => t = tag →
      s.volume.node.map.headOf (keyOfTag tag) = none ∧ s.volume.pool tag = none ∧ Base page
  | .volume _ => True
  | .redoneWhole t _ => t ≠ tag

/-- The invariant: the node is in order, and the copy of the page is its stored version. -/
structure VersionedCopy (redo : BufferTag → ℕ → Page → Page) (Base : Page → Prop)
    (tag : BufferTag) (s : ReplayNode Page) (basePage : BufferTag → Page)
    (chainOf : ℕ → EleNodes) : Prop where
  node : NodeOk basePage redo s.volume.node s.parsed chainOf
  base : Base (basePage tag)
  copy : CopyOk (basePage tag) s.volume tag

variable {Base : Page → Prop} {s s' : ReplayNode Page} {basePage : BufferTag → Page}

/-- The base pages can be chosen so that all pages without a stored version are held as them. -/
lemma VersionedCopy.rebase (h : VersionedCopy redo Base tag s basePage chainOf) :
    ∃ basePage', VersionedCopy redo Base tag s basePage' chainOf ∧
      ∀ t, (∀ lsn, s.volume.node.kv t lsn = none) → s.volume.basePage t = basePage' t := by
  classical
  set basePage' : BufferTag → Page := fun t =>
    if ∀ lsn, s.volume.node.kv t lsn = none then s.volume.basePage t else basePage t with hdef
  have hheld : ∀ t, (∀ lsn, s.volume.node.kv t lsn = none) →
      s.volume.basePage t = basePage' t := fun t ht => (if_pos ht).symm
  have htag : basePage' tag = basePage tag := by
    by_cases hnone : ∀ lsn, s.volume.node.kv tag lsn = none
    · rw [← hheld tag hnone]
      exact (h.copy.unstored hnone).basePage_eq
    · exact if_neg hnone
  refine ⟨basePage', ⟨h.node.rebase fun t => ?_, htag ▸ h.base, htag ▸ h.copy⟩, hheld⟩
  by_cases hnone : ∀ lsn, s.volume.node.kv t lsn = none
  · exact .inr hnone
  · exact .inl (if_neg hnone)

/-- An operation that touches neither versions nor the copy of the page. -/
lemma VersionedCopy.keep (h : VersionedCopy redo Base tag s basePage chainOf)
    (hnode : v'.node = s.volume.node) (hcopy : ∀ page, Copy s.volume tag page → Copy v' tag page) :
    VersionedCopy redo Base tag { s with volume := v' } basePage chainOf where
  node := by
    change NodeOk _ _ v'.node _ _
    rw [hnode]
    exact h.node
  base := h.base
  copy := h.copy.mono (by rw [hnode]) hcopy

/-- **Every step keeps the invariant**, if the copy of the page is its own. -/
lemma VersionedCopy.step {op : ReplayOp Page} (h : VersionedCopy redo Base tag s basePage chainOf)
    (hown : OwnCopy Base tag s op) (hstep : ReplayStep redo s op s') :
    ∃ basePage' chainOf', VersionedCopy redo Base tag s' basePage' chainOf' := by
  cases op with
  | redoneWhole t page =>
      obtain rfl := Option.some.inj hstep
      refine ⟨basePage, chainOf, h.keep rfl fun p hc => hc.congr ?_ rfl⟩
      exact update_of_ne (Ne.symm hown) _ _
  | volume op =>
      cases op with
      | parse t lsn =>
          obtain ⟨v', hv, rfl⟩ := Option.map_eq_some_iff.mp hstep
          obtain ⟨node', chainOf', hcall, hok⟩ := parse_spec h.node hown.1 hown.2
          simp only [volumeStep, if_pos hown.1, hcall, Option.map_some, Option.some.injEq] at hv
          subst hv
          refine ⟨basePage, chainOf', hok, h.base, h.copy.mono ?_ fun p hc => hc.congr rfl rfl⟩
          obtain ⟨_, _, hnode⟩ := Option.bind_eq_some_iff.mp hcall
          obtain rfl := Option.some.inj hnode
          rfl
      | read req =>
          obtain ⟨v', hv, rfl⟩ := Option.map_eq_some_iff.mp hstep
          obtain ⟨⟨node', outcome⟩, hrun, rfl⟩ := Option.map_eq_some_iff.mp hv
          obtain ⟨basePage', h', hheld⟩ := h.rebase
          obtain ⟨chainOf', hok⟩ := h'.node.read (hheld req.tag) hrun
          exact ⟨basePage', chainOf', hok, h'.base,
            h'.copy.moved (read_moved h.node.map hrun) hok.one_version⟩
      | background iter =>
          obtain ⟨v', hv, rfl⟩ := Option.map_eq_some_iff.mp hstep
          obtain ⟨head, hr, hv⟩ := Option.bind_eq_some_iff.mp hv
          obtain ⟨⟨node', outcome⟩, hrun, hv⟩ := Option.bind_eq_some_iff.mp hv
          obtain rfl := Option.some.inj hv
          obtain ⟨basePage', h', hheld⟩ := h.rebase
          obtain ⟨node'', chainOf', hcall, hok⟩ := background_spec h'.node hr (hheld _)
          obtain ⟨rfl, -⟩ : node'' = node' ∧ _ := by simpa [hcall] using hrun
          exact ⟨basePage', chainOf', hok, h'.base,
            h'.copy.moved (background_moved h.node.map hr hrun) hok.one_version⟩
      | truncate rel blknum =>
          obtain rfl := Option.some.inj hstep
          exact ⟨basePage, chainOf, h.keep rfl fun p hc => hc.congr rfl rfl⟩
      | extend t page =>
          obtain rfl := Option.some.inj hstep
          by_cases ht : t = tag
          · subst ht
            obtain ⟨hunlisted, hpool, hbase⟩ := hown rfl
            have hnone : ∀ lsn, s.volume.node.kv t lsn = none := by
              have hpage := h.node.pages t
              rw [pageList_eq_none_iff.mpr hunlisted] at hpage
              exact hpage.2
            refine ⟨update basePage t page, chainOf, h.node.rebase fun t' => ?_, ?_,
              fun lsn p hstored => ?_, fun _ => ⟨fun b hb => ?_, fun _ => ?_⟩⟩
            · by_cases ht : t' = t
              · exact .inr (ht ▸ hnone)
              · exact .inl (update_of_ne ht _ _)
            · rwa [update_self]
            · exact absurd (hstored.symm.trans (hnone lsn)) (Option.some_ne_none p)
            · exact absurd (hb.symm.trans hpool) (Option.some_ne_none b)
            · rw [update_self]
              exact update_self ..
          · refine ⟨basePage, chainOf, h.keep rfl fun p hc => hc.congr rfl ?_⟩
            exact update_of_ne (Ne.symm ht) _ _
      | flush t =>
          obtain rfl := Option.some.inj hstep
          exact ⟨basePage, chainOf, h.keep rfl fun p hc => hc.afterWrite t fst_of_cleaned⟩
      | evict t =>
          obtain rfl := Option.some.inj hstep
          exact ⟨basePage, chainOf, h.keep rfl fun p hc => hc.afterWrite t (by rintro _ ⟨⟩)⟩

end Volume

end GroundDB
