import GroundDB.MemPool.KeyHash
import GroundDB.MemPool.References

/-!
# The request handlers of the memory pool

`flush_page_handler` takes the handle of its page with `LookupInsert`, copies the page and its id
into the slot of the handle under the handle's lock, and releases the handle.
`access_page_handler` looks its page up, releases what it got and answers.  Handlers run in many
threads, so a run takes the steps of any number of handlers in any order; a handler between two
steps is a `Handler`.  A step through a null pointer is none: the copy into the slot of a handle
without one, and `Release` of a null handle, which reads the hash in it.

A request brings the bytes of a page id, with its padding, and the cache hashes all of them: a page
is found under the padding it was entered with only.

`written` is not part of the program: it records, for each page, the data of the last copy made
since the page entered the cache.

* When no handler is running, the slot of every cached page holds the page's id and that data, in
  the runs whose flush requests bring a page with one padding as long as it has a handle
  (`pool_coherent`).  With two paddings a page is cached twice (`page_cached_twice`).
* The answers to access requests are true, and no null handle is released, exactly in the runs in
  which every access request finds its page under its padding (`access_truthful`).
-/

namespace GroundDB

open PtrHeap Lts Tokens Function

/-- A handler between two of its steps: a flush before and after the copy, and an access before
the release, with the handle it got and whether its page was in the cache then. -/
inductive Handler (Page : Type)
  | flushing (e : Fin kNumShards × ℕ) (key : KeyType) (data : Page)
  | flushed (e : Fin kNumShards × ℕ)
  | accessing (key : KeyType) (e : Option (Fin kNumShards × ℕ)) (present : Bool)

/-- An answer to an access request, with whether its page was in the cache at the lookup. -/
structure AccessReply where
  key : KeyType
  successful : Bool
  present : Bool
deriving DecidableEq, Repr

/-- The pool, the contents of the page array, the running handlers and the answers sent. -/
structure PoolServer (Page : Type) where
  pool : PoolRun
  pageData : ℕ → Page
  pageId : ℕ → KeyType
  running : List (Handler Page)
  replies : List AccessReply
  written : KeyType → Option Page

/-- The steps of handlers; those after the first name a running handler. -/
inductive HandlerStep (Page : Type)
  | flush (r : KeyRep) (data : Page)
  | write (n : ℕ)
  | access (r : KeyRep)
  | release (n : ℕ)

/-- The handle that a handler has to release. -/
def Handler.holds {Page : Type} : Handler Page → Option (Fin kNumShards × ℕ)
  | .flushing e _ _ => some e
  | .flushed e => some e
  | .accessing _ e _ => e

namespace PoolServer

variable {Page : Type}

/-- A server with a pool of `n` pages and no handlers. -/
def start (n : UInt64) (pageData : ℕ → Page) (pageId : ℕ → KeyType) : PoolServer Page :=
  { pool := .allocatePageArray n, pageData := pageData, pageId := pageId, running := []
    replies := [], written := fun _ => none }

/-- `flush_page_handler` has taken its handle.  A page that was not found enters the cache. -/
def enterFlush (st : PoolServer Page) (r : KeyRep) (data : Page) (pool : PoolRun) :
    PoolServer Page :=
  { st with pool := pool
            running := st.running ++
              [.flushing (st.pool.returned r.key r.hashKeyType 1) r.key data]
            written :=
              if (st.pool.shards (shardOf r.hashKeyType)).find r.key r.hashKeyType = none
              then update st.written r.key none else st.written }

/-- The copy into the slot `p`, under the lock of the handle. -/
def copyPage (st : PoolServer Page) (n : ℕ) (e : Fin kNumShards × ℕ) (key : KeyType) (data : Page)
    (p : ℕ) : PoolServer Page :=
  { st with pageData := update st.pageData p data
            pageId := update st.pageId p key
            running := st.running.set n (.flushed e)
            written := update st.written key (some data) }

/-- `access_page_handler` has looked its page up. -/
def enterAccess (st : PoolServer Page) (r : KeyRep) (pool : PoolRun) : PoolServer Page :=
  { st with pool := pool
            running := st.running ++ [.accessing r.key (st.pool.found r.key r.hashKeyType)
              (decide (st.pool.IsCached r.key))] }

/-- A handler is done, with the answers `replies`. -/
def leave (st : PoolServer Page) (n : ℕ) (pool : PoolRun) (replies : List AccessReply) :
    PoolServer Page :=
  { st with pool := pool, running := st.running.eraseIdx n, replies := st.replies ++ replies }

/-- One step of a handler. -/
def step (st : PoolServer Page) : HandlerStep Page → Option (PoolServer Page)
  | .flush r data =>
      (st.pool.call (.lookupInsert r.key r.hashKeyType 1)).map (st.enterFlush r data)
  | .write n =>
      match st.running[n]? with
      | some (.flushing e key data) => (st.pool.owner e).map (st.copyPage n e key data)
      | _ => none
  | .access r => (st.pool.call (.lookup r.key r.hashKeyType)).map (st.enterAccess r)
  | .release n =>
      match st.running[n]? with
      | some (.flushed e) =>
          (st.pool.call (.release e.1 e.2)).map (st.leave n · [])
      | some (.accessing key (some e) present) =>
          (st.pool.call (.release e.1 e.2)).map (st.leave n · [⟨key, true, present⟩])
      | _ => none

/-- The steps of a run. -/
def Step (st : PoolServer Page) (a : HandlerStep Page) (st' : PoolServer Page) : Prop :=
  st.step a = some st'

/-! ## What a step does -/

variable {st st' : PoolServer Page} {a : HandlerStep Page} {n : UInt64}

/-- **The steps**, one by one. -/
lemma step_cases (hs : st.step a = some st') :
    (∃ r data pool, a = .flush r data ∧
      st.pool.call (.lookupInsert r.key r.hashKeyType 1) = some pool ∧
      st' = st.enterFlush r data pool) ∨
    (∃ k e key data p, a = .write k ∧ st.running[k]? = some (.flushing e key data) ∧
      st.pool.owner e = some p ∧ st' = st.copyPage k e key data p) ∨
    (∃ r pool, a = .access r ∧ st.pool.call (.lookup r.key r.hashKeyType) = some pool ∧
      st' = st.enterAccess r pool) ∨
    (∃ k x e pool replies, a = .release k ∧ st.running[k]? = some x ∧
      st.pool.call (.release e.1 e.2) = some pool ∧ st' = st.leave k pool replies ∧
      ((x = .flushed e ∧ replies = []) ∨
        ∃ key present, x = .accessing key (some e) present ∧
          replies = [⟨key, true, present⟩])) := by
  cases a with
  | flush r data =>
      left
      rw [step] at hs
      obtain ⟨pool, hcall, rfl⟩ := Option.map_eq_some_iff.mp hs
      exact ⟨r, data, pool, rfl, hcall, rfl⟩
  | write k =>
      right; left
      rw [step] at hs
      split at hs
      next e key data hk =>
        obtain ⟨p, hp, rfl⟩ := Option.map_eq_some_iff.mp hs
        exact ⟨k, e, key, data, p, rfl, hk, hp, rfl⟩
      next => cases hs
  | access r =>
      right; right; left
      rw [step] at hs
      obtain ⟨pool, hcall, rfl⟩ := Option.map_eq_some_iff.mp hs
      exact ⟨r, pool, rfl, hcall, rfl⟩
  | release k =>
      right; right; right
      rw [step] at hs
      split at hs
      next e hk =>
        obtain ⟨pool, hcall, rfl⟩ := Option.map_eq_some_iff.mp hs
        exact ⟨k, _, e, pool, [], rfl, hk, hcall, rfl, .inl ⟨rfl, rfl⟩⟩
      next key e present hk =>
        obtain ⟨pool, hcall, rfl⟩ := Option.map_eq_some_iff.mp hs
        exact ⟨k, _, e, pool, _, rfl, hk, hcall, rfl, .inr ⟨key, present, rfl, rfl⟩⟩
      next => cases hs

lemma perm_of_getElem? {l : List (Handler Page)} {k : ℕ} {x : Handler Page}
    (hk : l[k]? = some x) : l.Perm (x :: l.eraseIdx k) := by
  obtain ⟨hlt, rfl⟩ := List.getElem?_eq_some_iff.mp hk
  exact (List.getElem_cons_eraseIdx_perm hlt).symm

lemma perm_of_set {l : List (Handler Page)} {k : ℕ} {x : Handler Page}
    (hk : l[k]? = some x) (y : Handler Page) : (l.set k y).Perm (y :: l.eraseIdx k) := by
  obtain ⟨hlt, -⟩ := List.getElem?_eq_some_iff.mp hk
  exact List.set_perm_cons_eraseIdx hlt y

/-! ## What always holds -/

/-- The number of handlers that have to release a handle. -/
def holders (l : List (Handler Page)) (e : Fin kNumShards × ℕ) : ℕ :=
  l.countP fun x => x.holds = some e

lemma holders_append (l : List (Handler Page)) (x : Handler Page) (e : Fin kNumShards × ℕ) :
    holders (l ++ [x]) e = holders l e + if x.holds = some e then 1 else 0 := by
  simp [holders, List.countP_append, List.countP_cons]

lemma holders_of_perm {l l' : List (Handler Page)} {x : Handler Page} (hp : l.Perm (x :: l'))
    (e : Fin kNumShards × ℕ) :
    holders l e = holders l' e + if x.holds = some e then 1 else 0 := by
  rw [holders, hp.countP_eq, List.countP_cons]
  simp [holders]

lemma holders_pos {l : List (Handler Page)} {x : Handler Page} {e : Fin kNumShards × ℕ}
    (hx : x ∈ l) (he : x.holds = some e) : 0 < holders l e :=
  List.countP_pos_iff.mpr ⟨x, hx, decide_eq_true he⟩

/-- The references clients hold are those of the running handlers, and each handler refers to a
handle of its page. -/
structure ServerInv (n : UInt64) (st : PoolServer Page) : Prop where
  slots : PoolRun.SlotsOf n st.pool
  held : ∀ j x, st.pool.held j x = holders st.running (j, x)
  flushes : ∀ e key data, .flushing e key data ∈ st.running →
    ∃ d, (st.pool.shards e.1).entries e.2 = some d ∧ d.pageId = key
  accesses : ∀ key e present, .accessing key (some e) present ∈ st.running → present = true

lemma serverInv_start (n : UInt64) (pageData : ℕ → Page)
    (pageId : ℕ → KeyType) : ServerInv n (start n pageData pageId) := by
  refine ⟨PoolRun.slotsOf_start n, fun _ _ => rfl, ?_, ?_⟩
  · intro e key data hmem
    exact absurd hmem List.not_mem_nil
  · intro key e present hmem
    exact absurd hmem List.not_mem_nil

/-- The handlers that flush keep their pages while the pool takes a call. -/
lemma ServerInv.flushes_call (hi : ServerInv n st) {a : PoolCall} {pool : PoolRun}
    (hs : st.pool.call a = some pool) {e : Fin kNumShards × ℕ} {key : KeyType}
    {data : Page} (hmem : .flushing e key data ∈ st.running) (hheld : 0 < pool.held e.1 e.2) :
    ∃ d, (pool.shards e.1).entries e.2 = some d ∧ d.pageId = key := by
  obtain ⟨d, hd, rfl⟩ := hi.flushes e key data hmem
  exact PoolRun.pageId_call hi.slots.ok hs hd hheld

/-- What a handler must satisfy when it starts, in terms of the pool it starts with. -/
def starts (pool : PoolRun) : Handler Page → Prop
  | .flushing e key _ => ∃ d, (pool.shards e.1).entries e.2 = some d ∧ d.pageId = key
  | .flushed _ => True
  | .accessing _ e present => e ≠ none → present = true

/-- A call on the pool keeps the invariant where the running handlers are old ones or start in
order, and hold what the clients of the pool hold. -/
lemma ServerInv.of_call (hi : ServerInv n st) {c : PoolCall}
    (hcall : st.pool.call c = some st'.pool)
    (hheld : ∀ j x, st'.pool.held j x = holders st'.running (j, x))
    (hback : ∀ y ∈ st'.running, y ∈ st.running ∨ starts st'.pool y) : ServerInv n st' where
  slots := hi.slots.call hcall
  held := hheld
  flushes e key data hmem := by
    rcases hback _ hmem with hold | hnew
    · refine hi.flushes_call hcall hold ?_
      rw [hheld]
      exact holders_pos hmem rfl
    · exact hnew
  accesses key e present hmem := by
    rcases hback _ hmem with hold | hnew
    · exact hi.accesses key e present hold
    · exact hnew (Option.some_ne_none e)

/-- **Every step** keeps the invariant. -/
lemma ServerInv.step (hi : ServerInv n st) (hs : st.step a = some st') :
    ServerInv n st' := by
  rcases step_cases hs with ⟨r, data, pool, rfl, hcall, rfl⟩ |
    ⟨k, e, key, data, p, rfl, hk, hp, rfl⟩ | ⟨r, pool, rfl, hcall, rfl⟩ |
    ⟨k, x, e, pool, replies, rfl, hk, hcall, rfl, hx⟩
  · refine hi.of_call hcall ?_ ?_
    · intro j x
      simp only [enterFlush]
      rw [PoolRun.held_lookupInsert hcall, hi.held, holders_append]
      simp only [Handler.holds, Option.some.injEq]
    · intro y hy
      refine (List.mem_append.mp hy).imp_right fun hnew => ?_
      rw [List.mem_singleton.mp hnew]
      exact PoolRun.returned_pageId hi.slots.ok hcall
  · have hperm := perm_of_getElem? hk
    have hset := perm_of_set hk (.flushed e)
    have hback : ∀ y ∈ st.running.set k (.flushed e), y = .flushed e ∨ y ∈ st.running := by
      intro y hy
      rcases List.mem_cons.mp (hset.mem_iff.mp hy) with rfl | hrest
      · exact .inl rfl
      · exact .inr (hperm.mem_iff.mpr (List.mem_cons_of_mem _ hrest))
    refine ⟨hi.slots, ?_, ?_, ?_⟩
    · intro j x
      simp only [copyPage]
      rw [hi.held, holders_of_perm hperm, holders_of_perm hset]
      rfl
    · intro e' key' data' hmem
      rcases hback _ hmem with hnew | hold
      · cases hnew
      · exact hi.flushes e' key' data' hold
    · intro key' e' present hmem
      rcases hback _ hmem with hnew | hold
      · cases hnew
      · exact hi.accesses key' e' present hold
  · refine hi.of_call hcall ?_ ?_
    · intro j x
      simp only [enterAccess]
      rw [PoolRun.held_lookup hcall, hi.held, holders_append]
      rfl
    · intro y hy
      refine (List.mem_append.mp hy).imp_right fun hnew => ?_
      rw [List.mem_singleton.mp hnew, starts, decide_eq_true_iff]
      intro hfound
      have hsome := Option.isSome_iff_ne_none.mpr hfound
      exact (hi.slots.ok.found_isSome_iff.mp hsome).isCached
  · have hperm := perm_of_getElem? hk
    have hholds : x.holds = some e := by
      rcases hx with ⟨rfl, -⟩ | ⟨key, present, rfl, -⟩
      · rfl
      · rfl
    refine hi.of_call hcall ?_ ?_
    · intro j y
      simp only [leave]
      rw [PoolRun.held_release hi.slots.ok hcall, hi.held, holders_of_perm hperm, hholds]
      simp only [Option.some.injEq, Nat.add_sub_cancel]
    · exact fun y hy => .inl (hperm.mem_iff.mpr (List.mem_cons_of_mem _ hy))

/-! ## Coherence -/

/-- A flush request finds no live handle of its page that was entered with another hash: with other
padding, that is (`hashKeyType_eq_iff`). -/
def OnePadding (st : PoolServer Page) : HandlerStep Page → Prop
  | .flush r _ => st.pool.SameHash r.key r.hashKeyType
  | _ => True

variable {hashOf : KeyType → UInt32}

/-- **A step with one padding** keeps one hash for each page, which is that of the request. -/
lemma ServerInv.settled_step (hi : ServerInv n st) (hset : st.pool.Settled hashOf)
    (hone : st.OnePadding a) (hs : st.step a = some st') :
    ∃ hashOf, st.pool.Settled hashOf ∧ st'.pool.Settled hashOf ∧
      ∀ r data, a = .flush r data → hashOf r.key = r.hashKeyType := by
  rcases step_cases hs with ⟨r, data, pool, rfl, hcall, rfl⟩ |
    ⟨k, e, key, data, p, rfl, hk, hp, rfl⟩ | ⟨r, pool, rfl, hcall, rfl⟩ |
    ⟨k, x, e, pool, replies, rfl, hk, hcall, rfl, hx⟩
  · have hnew := hset.update hone
    refine ⟨_, hnew, hnew.call hi.slots.ok rfl ?_ hcall, ?_⟩
    · rintro key hash charge heq
      cases heq
      exact update_self ..
    · rintro r' data' heq
      cases heq
      exact update_self ..
  · exact ⟨hashOf, hset, hset, by rintro r data ⟨⟩⟩
  · exact ⟨hashOf, hset, hset.call hi.slots.ok rfl (by rintro key hash charge ⟨⟩) hcall,
      by rintro r data ⟨⟩⟩
  · exact ⟨hashOf, hset, hset.call hi.slots.ok rfl (by rintro key hash charge ⟨⟩) hcall,
      by rintro r data ⟨⟩⟩

/-- The page of a cached handle was copied into its slot since it entered the cache, and the last
copy is there; or the handler that entered it has not copied it yet. -/
def CoherentAt (st : PoolServer Page) (e : Fin kNumShards × ℕ) (d : HandleData ℕ) : Prop :=
  match st.written d.pageId with
  | none => ∃ data, .flushing e d.pageId data ∈ st.running
  | some data => ∃ p, d.value = some p ∧ st.pageData p = data ∧ st.pageId p = d.pageId

/-- Every cached handle is coherent. -/
def Coherent (st : PoolServer Page) : Prop :=
  ∀ i h d, (st.pool.shards i).entries h = some d → d.inCache = true → st.CoherentAt (i, h) d

/-- A handle stays coherent when nothing is copied and no flush is done before its copy. -/
lemma CoherentAt.mono {e : Fin kNumShards × ℕ} {d d' : HandleData ℕ} (hc : st.CoherentAt e d)
    (hsame : LruShard.SameHandle d' d)
    (hrun : ∀ key data, .flushing e key data ∈ st.running → .flushing e key data ∈ st'.running)
    (hw : st'.written d.pageId = st.written d.pageId)
    (hdata : ∀ p, d.value = some p → st'.pageData p = st.pageData p ∧ st'.pageId p = st.pageId p) :
    st'.CoherentAt e d' := by
  rw [CoherentAt, hsame.pageId, hsame.value, hw]
  rw [CoherentAt] at hc
  cases hwd : st.written d.pageId with
  | none =>
      rw [hwd] at hc
      obtain ⟨data, hmem⟩ := hc
      exact ⟨data, hrun _ data hmem⟩
  | some data =>
      rw [hwd] at hc
      obtain ⟨p, hp, hdp, hip⟩ := hc
      obtain ⟨hd', hi'⟩ := hdata p hp
      exact ⟨p, hp, hd'.trans hdp, hi'.trans hip⟩

lemma Coherent.of_shrinks (hc : st.Coherent)
    (hs : ∀ i, LruShard.Shrinks (st'.pool.shards i) (st.pool.shards i))
    (hrun : ∀ e key data, .flushing e key data ∈ st.running →
      .flushing e key data ∈ st'.running)
    (hw : st'.written = st.written) (hdata : st'.pageData = st.pageData)
    (hid : st'.pageId = st.pageId) : st'.Coherent := by
  intro i h d' hd' hin'
  obtain ⟨d, hd, hsame, hin⟩ := hs i h d' hd'
  refine (hc i h d hd (hin hin')).mono hsame (hrun (i, h)) (by rw [hw]) ?_
  intro p _
  rw [hdata, hid]
  exact ⟨rfl, rfl⟩

/-- **A page enters**: its handle waits for the copy, and no other handle has that page. -/
lemma Coherent.enter (hc : st.Coherent) (hi : ServerInv n st) (hset : st.pool.Settled hashOf)
    {r : KeyRep} {data : Page} {pool : PoolRun} (hhash : hashOf r.key = r.hashKeyType)
    (hcall : st.pool.call (.lookupInsert r.key r.hashKeyType 1) = some pool)
    (hf : (st.pool.shards (shardOf r.hashKeyType)).find r.key r.hashKeyType = none) :
    (st.enterFlush r data pool).Coherent := by
  obtain ⟨hfresh, hins⟩ := LruShard.lookupInsert_spec st.pool.freelist
    (PoolRun.insertArgs r.key r.hashKeyType 1) (hi.slots.ok.shard _) hf rfl
  have hret : st.pool.returned r.key r.hashKeyType 1
      = (shardOf r.hashKeyType, (st.pool.shards (shardOf r.hashKeyType)).fresh) := by
    rw [PoolRun.returned, hfresh]
  have hw : (st.enterFlush r data pool).written = update st.written r.key none :=
    if_pos hf
  -- a cached handle that was there before does not have the page that enters
  have hold : ∀ i h d, (st.pool.shards i).entries h = some d → d.inCache = true →
      (st.enterFlush r data pool).CoherentAt (i, h) d := by
    intro i h d hd hin
    have hne : d.pageId ≠ r.key := by
      intro hk
      have hcached : st.pool.IsCachedAs r.key r.hashKeyType :=
        ⟨i, h, (hi.slots.ok.shard i).inv.mem_cached_iff.mpr ⟨d, hd, hin⟩,
          by rw [hd, Option.map_some, hset.hashed i h d hd, hk, hhash]⟩
      obtain ⟨x, hx⟩ := hi.slots.ok.find_iff.mpr hcached
      rw [hf] at hx
      cases hx
    refine (hc i h d hd hin).mono (LruShard.SameHandle.refl d) ?_ ?_ (fun _ _ => ⟨rfl, rfl⟩)
    · intro key' data' hmem
      exact List.mem_append_left _ hmem
    · rw [hw, update_of_ne hne]
  obtain rfl := Option.some.inj hcall
  intro i h d hd hin
  by_cases hj : i = shardOf r.hashKeyType
  · subst hj
    simp only [enterFlush, PoolRun.set_shards_self] at hd
    by_cases hh : h = (st.pool.shards (shardOf r.hashKeyType)).fresh
    · rw [hh, hins.new] at hd
      cases hd
      rw [CoherentAt, hw]
      simp only [LruShard.newData, PoolRun.insertArgs, update_self]
      refine ⟨data, List.mem_append_right _ ?_⟩
      rw [hret, hh]
      exact List.mem_singleton.mpr rfl
    · rw [hins.entries h hh] at hd
      split at hd
      · cases hd
      · exact hold _ h d hd hin
  · simp only [enterFlush, PoolRun.set_shards_of_ne hj] at hd
    exact hold i h d hd hin

/-- **A copy** makes its own handle coherent and touches no other slot or page. -/
lemma Coherent.copy (hc : st.Coherent) (hi : ServerInv n st) (hset : st.pool.Settled hashOf) {k : ℕ}
    {e : Fin kNumShards × ℕ} {key : KeyType} {data : Page} {p : ℕ}
    (hk : st.running[k]? = some (.flushing e key data)) (hp : st.pool.owner e = some p) :
    (st.copyPage k e key data p).Coherent := by
  obtain ⟨de, hde, hkey⟩ := hi.flushes e key data (List.mem_of_getElem? hk)
  intro i h d hd hin
  have hd₀ : (st.pool.shards i).entries h = some d := hd
  by_cases he : (i, h) = e
  · subst he
    obtain rfl : d = de := Option.some.inj (hd₀.symm.trans hde)
    have hvalue : d.value = some p := by
      rw [← PoolRun.valueOf_eq hd₀]
      exact hp
    simp only [CoherentAt, copyPage, hkey, update_self]
    exact ⟨p, hvalue, update_self .., update_self ..⟩
  · have hne : d.pageId ≠ key := by
      intro heq
      exact he (hset.eq_of_pageId hi.slots.ok hd₀ hin hde (heq.trans hkey.symm))
    refine (hc i h d hd₀ hin).mono (LruShard.SameHandle.refl d) ?_ ?_ ?_
    · intro key' data' hmem
      refine (perm_of_set hk (.flushed e)).mem_iff.mpr (List.mem_cons_of_mem _ ?_)
      refine (List.mem_cons.mp ((perm_of_getElem? hk).mem_iff.mp hmem)).resolve_left ?_
      intro heq
      exact he (Handler.flushing.inj heq).1
    · exact update_of_ne hne _ _
    · intro q hq
      have hqp : q ≠ p := by
        rintro rfl
        refine he (hi.slots.exclusive.inj (i, h) e q ?_ hp)
        rw [PoolRun.owner, PoolRun.valueOf_eq hd₀]
        exact hq
      exact ⟨update_of_ne hqp _ _, update_of_ne hqp _ _⟩

/-- **Every step** keeps the cache coherent. -/
lemma Coherent.step (hc : st.Coherent) (hi : ServerInv n st) (hset : st.pool.Settled hashOf)
    (hhash : ∀ r data, a = .flush r data → hashOf r.key = r.hashKeyType)
    (hs : st.step a = some st') : st'.Coherent := by
  rcases step_cases hs with ⟨r, data, pool, rfl, hcall, rfl⟩ |
    ⟨k, e, key, data, p, rfl, hk, hp, rfl⟩ | ⟨r, pool, rfl, hcall, rfl⟩ |
    ⟨k, x, e, pool, replies, rfl, hk, hcall, rfl, hx⟩
  · by_cases hf : (st.pool.shards (shardOf r.hashKeyType)).find r.key r.hashKeyType = none
    · exact hc.enter hi hset (hhash r data rfl) hcall hf
    · refine hc.of_shrinks (PoolRun.shrinks_call hi.slots.ok hcall ?_) ?_ (if_neg hf) rfl rfl
      · rintro key' hash' charge heq
        cases heq
        exact hf
      · intro e key' data' hmem
        exact List.mem_append_left _ hmem
  · exact hc.copy hi hset hk hp
  · refine hc.of_shrinks (PoolRun.shrinks_call hi.slots.ok hcall ?_) ?_ rfl rfl rfl
    · rintro key' hash' charge heq
      cases heq
    · intro e key' data' hmem
      exact List.mem_append_left _ hmem
  · refine hc.of_shrinks (PoolRun.shrinks_call hi.slots.ok hcall ?_) ?_ rfl rfl rfl
    · rintro key' hash' charge heq
      cases heq
    · intro e' key' data' hmem
      -- the handler that leaves is not a flush before its copy
      refine (List.mem_cons.mp ((perm_of_getElem? hk).mem_iff.mp hmem)).resolve_left ?_
      rintro rfl
      rcases hx with ⟨heq, -⟩ | ⟨key, present, heq, -⟩
      · cases heq
      · cases heq

/-- The slot of each cached page holds the page's id and the data of the last copy made for the
page since it entered the cache. -/
def SlotsCurrent (st : PoolServer Page) : Prop :=
  ∀ i, ∀ h ∈ (st.pool.shards i).cached, ∃ d p data,
    (st.pool.shards i).entries h = some d ∧ d.value = some p ∧ st.pageId p = d.pageId ∧
    st.written d.pageId = some data ∧ st.pageData p = data

/-- **The memory pool is coherent** in every state of every run in which no handler is running, if
no flush request of the run found its page with a handle of another padding. -/
theorem pool_coherent (n : UInt64) (pageData : ℕ → Page) (pageId : ℕ → KeyType)
    {tr : List (HandlerStep Page)} {st : PoolServer Page}
    (hrun : Run (Guarded Step OnePadding) (start n pageData pageId) tr st)
    (hquiet : st.running = []) : st.SlotsCurrent := by
  have hinv : ServerInv n st ∧ (∃ hashOf, st.pool.Settled hashOf) ∧ st.Coherent := by
    refine hrun.invariant
      (I := fun st => ServerInv n st ∧ (∃ hashOf, st.pool.Settled hashOf) ∧ st.Coherent) ?_ ?_
    · refine ⟨serverInv_start n pageData pageId, ⟨_, PoolRun.settled_start (fun _ => 0) n⟩, ?_⟩
      intro i h d hd
      cases hd
    · rintro st a st' ⟨hi, ⟨hashOf, hset⟩, hc⟩ ⟨hone, hs⟩
      obtain ⟨hashOf', hset', hset'', hhash⟩ := hi.settled_step hset hone hs
      exact ⟨hi.step hs, ⟨_, hset''⟩, hc.step hi hset' hhash hs⟩
  obtain ⟨hi, -, hc⟩ := hinv
  intro i h hh
  obtain ⟨d, hd, hin⟩ := (hi.slots.ok.shard i).inv.mem_cached_iff.mp hh
  have hat := hc i h d hd hin
  rw [CoherentAt] at hat
  cases hw : st.written d.pageId with
  | none =>
      rw [hw, hquiet] at hat
      obtain ⟨data, hmem⟩ := hat
      exact absurd hmem List.not_mem_nil
  | some data =>
      rw [hw] at hat
      obtain ⟨p, hp, hdata, hid⟩ := hat
      exact ⟨d, p, data, hd, hp, hid, hw, hdata⟩

/-- Every live handle was entered by one of the requests `P`. -/
def EnteredBy (P : KeyRep → Prop) (st : PoolServer Page) : Prop :=
  ∀ i h d, (st.pool.shards i).entries h = some d →
    ∃ r, P r ∧ d.pageId = r.key ∧ d.hash = r.hashKeyType

lemma EnteredBy.step {P : KeyRep → Prop} (he : EnteredBy P st) (hi : ServerInv n st)
    (hP : ∀ r data, a = .flush r data → P r) (hs : st.step a = some st') : EnteredBy P st' := by
  -- what a call of the pool leaves is old, or of the flush that makes the call
  have hcall : ∀ {c : PoolCall}, st.pool.call c = some st'.pool → c.removes = false →
      (∀ key hash charge, c = .lookupInsert key hash charge →
        ∃ r, P r ∧ key = r.key ∧ hash = r.hashKeyType) → EnteredBy P st' := by
    intro c hc hremoves hnew i h d' hd'
    rcases PoolRun.entry_call hi.slots.ok hremoves hc hd' with
      ⟨d, hd, hsame, -⟩ | ⟨key, hash, charge, rfl, rfl, rfl, -⟩
    · rw [hsame.pageId, hsame.hash]
      exact he i h d hd
    · exact hnew _ _ _ rfl
  rcases step_cases hs with ⟨r, data, pool, rfl, hc, rfl⟩ |
    ⟨k, e, key, data, p, rfl, hk, hp, rfl⟩ | ⟨r, pool, rfl, hc, rfl⟩ |
    ⟨k, x, e, pool, replies, rfl, hk, hc, rfl, hx⟩
  · refine hcall hc rfl ?_
    rintro key hash charge heq
    cases heq
    exact ⟨r, hP r data rfl, rfl, rfl⟩
  · exact he
  · exact hcall hc rfl (by rintro key hash charge ⟨⟩)
  · exact hcall hc rfl (by rintro key hash charge ⟨⟩)

/-- **Where the flush requests bring each page with one padding**, no flush finds its page with
another one. -/
theorem onePadding_of_requests {P : KeyRep → Prop} {pageData : ℕ → Page} {pageId : ℕ → KeyType}
    {tr : List (HandlerStep Page)}
    (hone : ∀ r r', P r → P r' → r.key = r'.key → r.padding = r'.padding)
    (hP : ∀ r data, .flush r data ∈ tr → P r) (hrun : Run Step (start n pageData pageId) tr st) :
    Run (Guarded Step OnePadding) (start n pageData pageId) tr st := by
  suffices hall : Run (Guarded Step OnePadding) (start n pageData pageId) tr st ∧
      ServerInv n st ∧ EnteredBy P st from hall.1
  induction hrun with
  | nil =>
      refine ⟨.nil, serverInv_start n pageData pageId, ?_⟩
      intro i h d hd
      cases hd
  | @snoc tr t u a _ hs ih =>
      obtain ⟨hg, hi, he⟩ := ih fun r data hmem => hP r data (List.mem_append_left _ hmem)
      have hPa : ∀ r data, a = .flush r data → P r := by
        rintro r data rfl
        exact hP r data (List.mem_append_right _ (List.mem_singleton.mpr rfl))
      refine ⟨.snoc hg ⟨?_, hs⟩, hi.step hs, he.step hi hPa hs⟩
      cases a with
      | flush r data =>
          intro i h d hd hk
          obtain ⟨r', hr', hk', hh'⟩ := he i h d hd
          have hkey : r'.key = r.key := hk'.symm.trans hk
          rw [hh', KeyRep.hashKeyType_eq_iff hkey]
          exact hone r' r hr' (hPa r data rfl) hkey
      | write k => trivial
      | access r => trivial
      | release k => trivial

/-- The server of the examples: 1024 pages, with nothing in them. -/
def emptyServer : PoolServer ℕ := start 1024 (fun _ => 0) fun _ => ⟨0, 0, 0, 0, 0⟩

/-- A flush from its first step to its last, with no other handler running. -/
def flushPage (r : KeyRep) (data : ℕ) : List (HandlerStep ℕ) :=
  [.flush r data, .write 0, .release 0]

/-- Two handlers flush the same page; the second copies first. -/
theorem pool_coherent_two : ∃ tr st, Run (Guarded Step OnePadding) emptyServer tr st ∧
      tr = [.flush (RepPool.paddedRep 0) 5, .flush (RepPool.paddedRep 0) 6, .write 1, .write 0,
        .release 1, .release 0] ∧
      st.running = [] ∧ st.pool.IsCached ⟨1, 1, 1, 0, 0⟩ ∧ st.SlotsCurrent := by
  have heval : (List.foldlM step emptyServer
      [.flush (RepPool.paddedRep 0) 5, .flush (RepPool.paddedRep 0) 6, .write 1, .write 0,
        .release 1, .release 0]).any (fun st => decide (st.running.isEmpty = true ∧
          st.pool.IsCached ⟨1, 1, 1, 0, 0⟩)) = true := by
    decide +kernel
  obtain ⟨st, hst, hobs⟩ := exists_run_of_any heval
  obtain ⟨hquiet, hcached⟩ := of_decide_eq_true hobs
  have hrun := onePadding_of_requests (P := (· = RepPool.paddedRep 0)) (n := 1024)
    (by rintro r r' rfl rfl _; rfl) (by
      rintro r data hmem
      simp only [List.mem_cons, HandlerStep.flush.injEq, reduceCtorEq, List.not_mem_nil,
        or_false] at hmem
      rcases hmem with h | h <;> exact h.1) hst
  exact ⟨_, st, hrun, rfl, List.isEmpty_iff.mp hquiet, hcached,
    pool_coherent 1024 _ _ hrun (List.isEmpty_iff.mp hquiet)⟩

/-- A page is flushed with padding 0 and then with padding 1: it is cached twice, and the slot of
the first entry keeps the data of the first flush. -/
theorem page_cached_twice : ∃ st, Run Step emptyServer
      (flushPage (RepPool.paddedRep 0) 5 ++ flushPage (RepPool.paddedRep 1) 6) st ∧
      st.running = [] ∧ ¬st.SlotsCurrent := by
  have heval : (List.foldlM step emptyServer
      (flushPage (RepPool.paddedRep 0) 5 ++ flushPage (RepPool.paddedRep 1) 6)).any (fun st =>
        decide (st.running.isEmpty = true ∧
          2 ∈ (st.pool.shards (shardOf 1006576630)).cached ∧
          ((st.pool.shards (shardOf 1006576630)).entries 2).map HandleData.pageId
            = some ⟨1, 1, 1, 0, 0⟩ ∧
          (st.pool.shards (shardOf 1006576630)).valueOf 2 = some 0 ∧
          st.written ⟨1, 1, 1, 0, 0⟩ = some 6 ∧ st.pageData 0 = 5)) = true := by
    decide +kernel
  obtain ⟨st, hst, hobs⟩ := exists_run_of_any heval
  obtain ⟨hquiet, hcached, hentry, hvalue, hwritten, hdata⟩ := of_decide_eq_true hobs
  refine ⟨st, hst, List.isEmpty_iff.mp hquiet, fun hcur => ?_⟩
  obtain ⟨d, p, data, hd, hp, -, hw, hdp⟩ := hcur (shardOf 1006576630) 2 hcached
  rw [PoolRun.valueOf_eq hd] at hvalue
  rw [hd, Option.map_some, Option.some.injEq] at hentry
  rw [hentry, hwritten] at hw
  obtain rfl := Option.some.inj (hp.symm.trans hvalue)
  obtain rfl := Option.some.inj hw
  exact absurd (hdata.symm.trans hdp) (by decide)

/-! ## Access requests -/

/-- The answers sent are true, and every access under way got a handle that it can release. -/
structure Truthful (st : PoolServer Page) : Prop where
  replies : ∀ r ∈ st.replies, r.successful = r.present
  obtained : ∀ key e present, .accessing key e present ∈ st.running → e ≠ none

/-- An access request finds its page in the cache, entered with its hash: with its padding. -/
def Finds (st : PoolServer Page) : HandlerStep Page → Prop
  | .access r => st.pool.IsCachedAs r.key r.hashKeyType
  | _ => True

instance (st : PoolServer Page) (a : HandlerStep Page) : Decidable (st.Finds a) :=
  match a with
  | .access r => inferInstanceAs (Decidable (st.pool.IsCachedAs r.key r.hashKeyType))
  | .flush _ _ => .isTrue trivial
  | .write _ => .isTrue trivial
  | .release _ => .isTrue trivial

/-- A step keeps answers and releases right exactly if it is not an access that misses. -/
lemma truthful_step_iff (hi : ServerInv n st) (hs : st.step a = some st') :
    st'.Truthful ↔ st.Truthful ∧ st.Finds a := by
  rcases step_cases hs with ⟨r, data, pool, rfl, hcall, rfl⟩ |
    ⟨k, e, key, data, p, rfl, hk, hp, rfl⟩ | ⟨r, pool, rfl, hcall, rfl⟩ |
    ⟨k, x, e, pool, replies, rfl, hk, hcall, rfl, hx⟩
  · constructor
    · intro ht
      refine ⟨⟨ht.replies, fun key' e present hmem => ?_⟩, trivial⟩
      exact ht.obtained key' e present (List.mem_append_left _ hmem)
    · rintro ⟨ht, -⟩
      refine ⟨ht.replies, fun key' e present hmem => ?_⟩
      rcases List.mem_append.mp hmem with hold | hnew
      · exact ht.obtained key' e present hold
      · simp at hnew
  · have hperm := perm_of_getElem? hk
    have hset := perm_of_set hk (.flushed e)
    constructor
    · intro ht
      refine ⟨⟨ht.replies, fun key' e' present hmem => ?_⟩, trivial⟩
      refine ht.obtained key' e' present (hset.mem_iff.mpr (List.mem_cons_of_mem _ ?_))
      exact (List.mem_cons.mp (hperm.mem_iff.mp hmem)).resolve_left (by simp)
    · rintro ⟨ht, -⟩
      refine ⟨ht.replies, fun key' e' present hmem => ?_⟩
      refine ht.obtained key' e' present (hperm.mem_iff.mpr (List.mem_cons_of_mem _ ?_))
      exact (List.mem_cons.mp (hset.mem_iff.mp hmem)).resolve_left (by simp)
  · constructor
    · intro ht
      refine ⟨⟨ht.replies, fun key' e present hmem => ?_⟩, ?_⟩
      · exact ht.obtained key' e present (List.mem_append_left _ hmem)
      · have hnew := ht.obtained r.key _ _ (List.mem_append_right _ (List.mem_singleton.mpr rfl))
        exact hi.slots.ok.found_isSome_iff.mp (Option.isSome_iff_ne_none.mpr hnew)
    · rintro ⟨ht, hfinds⟩
      refine ⟨ht.replies, fun key' e present hmem => ?_⟩
      rcases List.mem_append.mp hmem with hold | hnew
      · exact ht.obtained key' e present hold
      · obtain ⟨-, rfl, -⟩ := Handler.accessing.inj (List.mem_singleton.mp hnew)
        exact Option.isSome_iff_ne_none.mp (hi.slots.ok.found_isSome_iff.mpr hfinds)
  · have hperm := perm_of_getElem? hk
    constructor
    · intro ht
      refine ⟨⟨fun r hr => ht.replies r (List.mem_append_left _ hr), ?_⟩, trivial⟩
      intro key' e' present hmem
      rcases List.mem_cons.mp (hperm.mem_iff.mp hmem) with rfl | hrest
      · -- the access that is done had a handle to release
        rcases hx with ⟨heq, -⟩ | ⟨key, present', heq, -⟩
        · cases heq
        · rw [(Handler.accessing.inj heq).2.1]
          exact Option.some_ne_none e
      · exact ht.obtained key' e' present hrest
    · rintro ⟨ht, -⟩
      refine ⟨?_, fun key' e' present hmem => ?_⟩
      · intro r hr
        rcases List.mem_append.mp hr with hold | hnew
        · exact ht.replies r hold
        · rcases hx with ⟨-, rfl⟩ | ⟨key, present, rfl, rfl⟩
          · exact absurd hnew List.not_mem_nil
          · rw [List.mem_singleton.mp hnew]
            exact (hi.accesses key e present (List.mem_of_getElem? hk)).symm
      · exact ht.obtained key' e' present (hperm.mem_iff.mpr (List.mem_cons_of_mem _ hmem))

/-- **Access requests are answered truthfully**, and no handle is released that was not obtained,
exactly in the runs in which every access request finds its page in the cache under its padding. -/
theorem access_truthful (n : UInt64) (pageData : ℕ → Page) (pageId : ℕ → KeyType)
    {tr : List (HandlerStep Page)} {st : PoolServer Page}
    (hrun : Run Step (start n pageData pageId) tr st) :
    st.Truthful ↔ Run (Guarded Step Finds) (start n pageData pageId) tr st := by
  refine hrun.guarded_iff (I := ServerInv n) (serverInv_start n pageData pageId) ?_ ?_ ?_
  · intro st a st' hi hs
    exact hi.step hs
  · constructor
    · intro r hr
      exact absurd hr List.not_mem_nil
    · intro key e present hmem
      exact absurd hmem List.not_mem_nil
  · intro st a st' hi hs
    exact truthful_step_iff hi hs

/-- A page is flushed and accessed then: the answer is true. -/
theorem access_truthful_flushed : ∃ st, Run Step emptyServer
      (flushPage (RepPool.paddedRep 0) 5 ++ [.access (RepPool.paddedRep 0), .release 0]) st ∧
      st.replies.map (fun r => (r.key, r.successful)) = [(⟨1, 1, 1, 0, 0⟩, true)] ∧
      st.Truthful := by
  have heval : (List.foldlM (fun st a => if Finds st a then step st a else none) emptyServer
      (flushPage (RepPool.paddedRep 0) 5 ++ [.access (RepPool.paddedRep 0), .release 0])).any
        (fun st => decide (st.replies.map (fun r => (r.key, r.successful))
          = [(⟨1, 1, 1, 0, 0⟩, true)])) = true := by
    decide +kernel
  obtain ⟨st, hst, hobs⟩ := exists_guarded_run_of_any heval
  exact ⟨st, hst.of_guarded, of_decide_eq_true hobs,
    (access_truthful 1024 _ _ hst.of_guarded).mpr hst⟩

/-- Two accesses that get no handle, whose next step is to release it: of a page that was never
flushed, and of a page that was flushed with other padding and is in the cache. -/
theorem access_releases_null :
    (∃ st, Run Step emptyServer [.access (RepPool.paddedRep 0)] st ∧ ¬st.Truthful ∧
      st.step (.release 0) = none) ∧
    ∃ st, Run Step emptyServer
      (flushPage (RepPool.paddedRep 0) 5 ++ [.access (RepPool.paddedRep 1)]) st ∧
      st.pool.IsCached (RepPool.paddedRep 1).key ∧ ¬st.Truthful ∧
      (st.step (.release 0)).isNone = true := by
  constructor
  · refine ⟨_, .cons rfl .nil, ?_, rfl⟩
    intro ht
    exact ht.obtained _ _ _ (List.mem_singleton.mpr rfl) rfl
  · have heval : (List.foldlM step emptyServer
        (flushPage (RepPool.paddedRep 0) 5 ++ [.access (RepPool.paddedRep 1)])).any (fun st =>
          decide (st.pool.IsCached (RepPool.paddedRep 1).key ∧
            (st.step (.release 0)).isNone = true ∧
            st.running.map Handler.holds = [none])) = true := by
      decide +kernel
    obtain ⟨st, hst, hobs⟩ := exists_run_of_any heval
    obtain ⟨hcached, hstuck, hholds⟩ := of_decide_eq_true hobs
    refine ⟨st, hst, hcached, fun ht => ?_, hstuck⟩
    obtain ⟨x, hx, hnone⟩ := List.map_eq_singleton_iff.mp hholds
    have hmem : x ∈ st.running := hx ▸ List.mem_singleton.mpr rfl
    -- a handler of a flush has a handle, so this is the access
    cases x with
    | flushing e key data => cases hnone
    | flushed e => cases hnone
    | accessing key e present => exact ht.obtained key e present hmem hnone

end PoolServer

end GroundDB
