import GroundDB.Lib.Wire
import GroundDB.LruCache.Table
import GroundDB.MemPool.Pool

/-!
# Hashes of page ids

The cache hashes a page id as the 40 bytes in which it lies in memory (`HashKeyType`), and compares
page ids field by field (`KeyTypeCmp`).  Four of the bytes are padding between `ForkNum` and
`BlkNum`: they belong to no field and are what they were in the request message.

**The hash.**  Each step of `Hash` can be undone, so that two representations of one page id have
the same hash just if their padding is the same (`hashKeyType_eq_iff`).

**The cache.**  A handle is found under the hash it was entered with.  `RepPool` records for each
handle the representation it was entered with; `equal_page_ids_meet_iff` says which other
representations of the page id find it.
-/

namespace GroundDB

open Wire Lts Tokens Function

/-! ## `Hash` -/

/-- The factor `m` of `Hash`. -/
def hashMultiplier : UInt32 := 0xc6a4a793

/-- One turn of the loop of `Hash`, with the next four bytes. -/
def hashMix (h w : UInt32) : UInt32 :=
  let h := (h + w) * hashMultiplier
  h ^^^ (h >>> 16)

/-- The last step of `Hash` when bytes remain. -/
def hashFinish (h : UInt32) : UInt32 :=
  let h := h * hashMultiplier
  h ^^^ (h >>> 24)

/-- A byte with its sign extended. -/
def signedByte (b : UInt8) : UInt32 := b.toInt8.toInt32.toUInt32

/-- `DecodeFixed32`. -/
def decodeFixed32 (bs : List UInt8) : UInt32 := UInt32.ofNat (ofLittleEndian bs)

/-- The words that the loop of `Hash` picks up, four bytes at a time. -/
def hashWords : List UInt8 → List UInt32
  | b₀ :: b₁ :: b₂ :: b₃ :: data => decodeFixed32 [b₀, b₁, b₂, b₃] :: hashWords data
  | _ => []

/-- The bytes that remain after the loop of `Hash`, at most three. -/
def hashRest (data : List UInt8) : List UInt8 := data.drop (data.length / 4 * 4)

/-- The `switch` on the remaining bytes. -/
def hashTail (h : UInt32) : List UInt8 → UInt32
  | [b₀, b₁, b₂] =>
      hashFinish (h + (signedByte b₂ <<< 16) + (signedByte b₁ <<< 8) + signedByte b₀)
  | [b₀, b₁] => hashFinish (h + (signedByte b₁ <<< 8) + signedByte b₀)
  | [b₀] => hashFinish (h + signedByte b₀)
  | _ => h

/-- `Hash`. -/
def hash (data : List UInt8) (seed : UInt32) : UInt32 :=
  hashTail ((hashWords data).foldl hashMix (seed ^^^ (UInt32.ofNat data.length * hashMultiplier)))
    (hashRest data)

lemma mul_hashMultiplier_injective : Function.Injective (· * hashMultiplier) := by
  have hinv : hashMultiplier * 0xd8198e9b = 1 := by decide
  refine Function.LeftInverse.injective (g := (· * 0xd8198e9b)) fun a => ?_
  show a * hashMultiplier * 0xd8198e9b = a
  rw [UInt32.mul_assoc, hinv, UInt32.mul_one]

lemma xor_shiftRight_involutive : Function.Involutive fun h : UInt32 => h ^^^ (h >>> 16) := by
  intro h
  apply UInt32.toBitVec_inj.mp
  ext i hi
  -- a bit is combined twice with the one 16 above it, and once with one that is not there
  have hnone : h.toBitVec.getLsbD (16 + (16 + i)) = false := BitVec.getLsbD_of_ge _ _ (by omega)
  simp [BitVec.getElem_ushiftRight, hnone]

/-- A turn of the loop is determined by what comes out and either of what goes in. -/
lemma hashMix_inj {h h' w w' : UInt32} : hashMix h w = hashMix h' w' ↔ h + w = h' + w' := by
  constructor
  · intro heq
    exact mul_hashMultiplier_injective (xor_shiftRight_involutive.injective heq)
  · intro heq
    rw [hashMix, hashMix, heq]

lemma hashMix_left_injective (w : UInt32) : Function.Injective (hashMix · w) := by
  intro h h' (heq : hashMix h w = hashMix h' w)
  have hsum := hashMix_inj.mp heq
  rwa [UInt32.add_left_inj] at hsum

lemma foldl_hashMix_injective (ws : List UInt32) : Function.Injective (ws.foldl hashMix) := by
  induction ws with
  | nil => exact fun _ _ h => h
  | cons w ws ih => exact fun _ _ h => hashMix_left_injective w (ih h)

lemma hashWords_append {bs : List UInt8} {k : ℕ} (hlen : bs.length = 4 * k) (data : List UInt8) :
    hashWords (bs ++ data) = hashWords bs ++ hashWords data := by
  induction k generalizing bs with
  | zero =>
      rw [List.length_eq_zero_iff.mp hlen]
      rfl
  | succ k ih =>
      match bs, hlen with
      | b₀ :: b₁ :: b₂ :: b₃ :: bs, hlen =>
          have hlen' : bs.length = 4 * k := by simpa [Nat.mul_succ] using hlen
          simp [hashWords, ih hlen']

lemma hashWords_word {bs : List UInt8} (hlen : bs.length = 4) :
    hashWords bs = [decodeFixed32 bs] := by
  match bs, hlen with
  | [b₀, b₁, b₂, b₃], _ => rfl

/-! ## Representations of page ids -/

/-- A page id as it lies in memory, padding included. -/
structure KeyRep where
  bytes : List UInt8
  length_bytes : bytes.length = 40
deriving DecidableEq

namespace KeyRep

variable (r : KeyRep)

/-- `n` bytes from `pos` on. -/
def field (pos n : ℕ) : List UInt8 := (r.bytes.drop pos).take n

/-- The page id that is represented: the fields at their offsets, on a little-endian machine. -/
def key : KeyType :=
  { spcID := UInt64.ofNat (ofLittleEndian (r.field 0 8))
    dbID := UInt64.ofNat (ofLittleEndian (r.field 8 8))
    relID := UInt64.ofNat (ofLittleEndian (r.field 16 8))
    forkNum := UInt32.ofNat (ofLittleEndian (r.field 24 4))
    blkNum := (UInt64.ofNat (ofLittleEndian (r.field 32 8))).toInt64 }

/-- The bytes between `ForkNum` and `BlkNum`. -/
def padding : List UInt8 := r.field 28 4

/-- `HashKeyType`. -/
def hashKeyType : UInt32 := hash r.bytes 0

variable {r r' : KeyRep}

lemma length_field {pos n : ℕ} (h : pos + n ≤ 40) : (r.field pos n).length = n := by
  have := r.length_bytes
  rw [field, List.length_take, List.length_drop]
  omega

lemma field_eq_of_mod_eq {pos n : ℕ} (h : pos + n ≤ 40)
    (heq : ofLittleEndian (r.field pos n) % 256 ^ n = ofLittleEndian (r'.field pos n) % 256 ^ n) :
    r.field pos n = r'.field pos n := by
  have hlt := ofLittleEndian_lt (r.field pos n)
  have hlt' := ofLittleEndian_lt (r'.field pos n)
  rw [length_field h] at hlt hlt'
  rw [Nat.mod_eq_of_lt hlt, Nat.mod_eq_of_lt hlt'] at heq
  exact ofLittleEndian_inj (by rw [length_field h, length_field h]) heq

lemma field_eq_of_ofNat_eq {pos : ℕ} (h : pos + 8 ≤ 40)
    (heq : UInt64.ofNat (ofLittleEndian (r.field pos 8)) =
      UInt64.ofNat (ofLittleEndian (r'.field pos 8))) : r.field pos 8 = r'.field pos 8 :=
  field_eq_of_mod_eq h (by simpa using congrArg UInt64.toNat heq)

lemma word_eq_of_ofNat_eq {pos : ℕ} (h : pos + 4 ≤ 40)
    (heq : UInt32.ofNat (ofLittleEndian (r.field pos 4)) =
      UInt32.ofNat (ofLittleEndian (r'.field pos 4))) : r.field pos 4 = r'.field pos 4 :=
  field_eq_of_mod_eq h (by simpa using congrArg UInt32.toNat heq)

lemma take_bytes : r.bytes.take 28 =
    r.field 0 8 ++ r.field 8 8 ++ r.field 16 8 ++ r.field 24 4 := by
  simp only [field, List.drop_zero, ← List.take_add, Nat.reduceAdd]

lemma drop_bytes : r.bytes.drop 32 = r.field 32 8 := by
  rw [field, List.take_of_length_le]
  rw [List.length_drop, r.length_bytes]

/-- Representations of one page id agree before and behind the padding. -/
lemma bytes_eq_of_key_eq (h : r.key = r'.key) :
    r.bytes.take 28 = r'.bytes.take 28 ∧ r.bytes.drop 32 = r'.bytes.drop 32 := by
  simp only [key, KeyType.mk.injEq] at h
  obtain ⟨hspc, hdb, hrel, hfork, hblk⟩ := h
  rw [take_bytes, take_bytes, drop_bytes, drop_bytes, field_eq_of_ofNat_eq (by decide) hspc,
    field_eq_of_ofNat_eq (by decide) hdb, field_eq_of_ofNat_eq (by decide) hrel,
    word_eq_of_ofNat_eq (by decide) hfork]
  refine ⟨rfl, field_eq_of_ofNat_eq (by decide) ?_⟩
  simpa using congrArg Int64.toUInt64 hblk

lemma hashWords_bytes (r : KeyRep) : hashWords r.bytes =
    hashWords (r.bytes.take 28) ++ decodeFixed32 r.padding :: hashWords (r.bytes.drop 32) := by
  have hsplit : r.bytes = r.bytes.take 28 ++ (r.padding ++ r.bytes.drop 32) := by
    rw [padding, field, ← List.drop_drop (i := 4) (j := 28), List.take_append_drop,
      List.take_append_drop]
  have hfront : (r.bytes.take 28).length = 4 * 7 := by
    rw [List.length_take, r.length_bytes]
    rfl
  have hpadding : r.padding.length = 4 * 1 := length_field (by decide)
  calc hashWords r.bytes = hashWords (r.bytes.take 28 ++ (r.padding ++ r.bytes.drop 32)) :=
        congrArg hashWords hsplit
    _ = hashWords (r.bytes.take 28) ++ (hashWords r.padding ++ hashWords (r.bytes.drop 32)) := by
        rw [hashWords_append hfront, hashWords_append hpadding]
    _ = _ := by
        rw [hashWords_word hpadding]
        rfl

/-- The hash is taken over the words before the padding, the padding, and the words behind it. -/
lemma hashKeyType_eq (r : KeyRep) : r.hashKeyType =
    (hashWords (r.bytes.drop 32)).foldl hashMix
      (hashMix ((hashWords (r.bytes.take 28)).foldl hashMix (UInt32.ofNat 40 * hashMultiplier))
        (decodeFixed32 r.padding)) := by
  have hrest : hashRest r.bytes = [] := by
    rw [hashRest, r.length_bytes]
    exact List.drop_eq_nil_of_le r.length_bytes.le
  rw [hashKeyType, hash, hrest, hashWords_bytes, List.foldl_append, List.foldl_cons, r.length_bytes,
    UInt32.zero_xor]
  rfl

/-- **Hashes of one page id**: they are the same just if the padding is. -/
theorem hashKeyType_eq_iff (h : r.key = r'.key) :
    r.hashKeyType = r'.hashKeyType ↔ r.padding = r'.padding := by
  obtain ⟨hfront, hback⟩ := bytes_eq_of_key_eq h
  rw [hashKeyType_eq, hashKeyType_eq, hfront, hback]
  constructor
  · intro heq
    have hmix := hashMix_inj.mp (foldl_hashMix_injective _ heq)
    rw [UInt32.add_right_inj] at hmix
    exact word_eq_of_ofNat_eq (by decide) hmix
  · intro heq
    rw [heq]

end KeyRep

/-! ## The cache, called with representations -/

/-- The calls of the cache's clients, with page ids as they come in requests. -/
inductive RepCall
  | access (r : KeyRep)
  | flush (r : KeyRep) (charge : UInt64)
  | release (i : Fin kNumShards) (h : ℕ)
  | erase (r : KeyRep)
  | prune (i : Fin kNumShards)

/-- The call of the cache: an access is a `Lookup`, a flush a `LookupInsert`. -/
def RepCall.call : RepCall → PoolCall
  | .access r => .lookup r.key r.hashKeyType
  | .flush r charge => .lookupInsert r.key r.hashKeyType charge
  | .release i h => .release i h
  | .erase r => .erase r.key r.hashKeyType
  | .prune i => .prune i

/-- The pool, with the representation that each handle was entered with. -/
structure RepPool where
  pool : PoolRun
  entered : Fin kNumShards × ℕ → Option KeyRep

namespace RepPool

/-- A pool with empty shards. -/
def start (capacity : Fin kNumShards → UInt64) (freelist : List ℕ) : RepPool :=
  { pool := .start capacity freelist, entered := fun _ => none }

/-- A flush that finds nothing enters a new handle. -/
def enters (st : RepPool) : RepCall → Fin kNumShards × ℕ → Option KeyRep
  | .flush r _ =>
      let i := shardOf r.hashKeyType
      if (st.pool.shards i).find r.key r.hashKeyType = none then
        update st.entered (i, (st.pool.shards i).fresh) (some r)
      else st.entered
  | _ => st.entered

/-- One call. -/
def call (st : RepPool) (a : RepCall) : Option RepPool :=
  (st.pool.call a.call).map fun pool => { pool := pool, entered := st.enters a }

/-- The steps of a run. -/
def Step (st : RepPool) (a : RepCall) (st' : RepPool) : Prop := st.call a = some st'

/-- The handle that an access finds. -/
def accessed (st : RepPool) (r : KeyRep) : Option (Fin kNumShards × ℕ) :=
  st.pool.found r.key r.hashKeyType

/-- The handle that a flush gets. -/
def flushed (st : RepPool) (r : KeyRep) (charge : UInt64) : Fin kNumShards × ℕ :=
  st.pool.returned r.key r.hashKeyType charge

/-- The entry that a flush with the representation `r` made is in the cache. -/
def Cached (st : RepPool) (r : KeyRep) (i : Fin kNumShards) (h : ℕ) : Prop :=
  st.entered (i, h) = some r ∧ ∃ d, (st.pool.shards i).entries h = some d ∧ d.inCache = true

/-- The shards are in order, and each handle has the key and the hash of the representation it was
entered with. -/
structure Ok (st : RepPool) : Prop where
  pool : st.pool.Ok
  entered : ∀ i h d, (st.pool.shards i).entries h = some d →
    ∃ r, st.entered (i, h) = some r ∧ d.pageId = r.key ∧ d.hash = r.hashKeyType

variable {st st' : RepPool} {a : RepCall}

lemma ok_start (capacity : Fin kNumShards → UInt64) (freelist : List ℕ) :
    (start capacity freelist).Ok := by
  refine ⟨PoolRun.ok_start capacity freelist, ?_⟩
  intro i h d hd
  cases hd

lemma Ok.enters_of_live (hok : st.Ok) (a : RepCall) {i : Fin kNumShards} {h : ℕ}
    {d : HandleData ℕ} (hd : (st.pool.shards i).entries h = some d) :
    st.enters a (i, h) = st.entered (i, h) := by
  cases a with
  | flush r charge =>
      simp only [enters]
      split_ifs
      · refine update_of_ne ?_ _ _
        rintro heq
        obtain ⟨rfl, rfl⟩ := Prod.mk.inj heq
        rw [(hok.pool.shard _).inv.entries_fresh] at hd
        cases hd
      · rfl
  | access r => rfl
  | release i h => rfl
  | erase r => rfl
  | prune i => rfl

/-- A handle that was there keeps its representation if it keeps its key and its hash. -/
lemma Ok.entered_kept (hok : st.Ok) (a : RepCall) {i : Fin kNumShards} {h : ℕ}
    {d d₀ : HandleData ℕ} (hd₀ : (st.pool.shards i).entries h = some d₀)
    (hkey : d.pageId = d₀.pageId) (hhash : d.hash = d₀.hash) :
    ∃ r, st.enters a (i, h) = some r ∧ d.pageId = r.key ∧ d.hash = r.hashKeyType := by
  obtain ⟨r, hr, hrkey, hrhash⟩ := hok.entered i h d₀ hd₀
  exact ⟨r, (hok.enters_of_live a hd₀).trans hr, hkey.trans hrkey, hhash.trans hrhash⟩

/-- A flush that finds nothing makes a handle of its page id and hash. -/
lemma Ok.entered_flush (hok : st.Ok) {r : KeyRep} {charge : UInt64} {s : LruShard}
    {vs fl : List ℕ} {held : ℕ → ℕ}
    (hf : (st.pool.shards (shardOf r.hashKeyType)).find r.key r.hashKeyType = none)
    (hins : LruShard.Inserted (st.pool.shards (shardOf r.hashKeyType)) st.pool.freelist
      (PoolRun.insertArgs r.key r.hashKeyType charge) vs s fl)
    {i : Fin kNumShards} {h : ℕ} {d : HandleData ℕ}
    (hd : ((st.pool.set (shardOf r.hashKeyType) s fl held).shards i).entries h = some d) :
    ∃ r', st.enters (.flush r charge) (i, h) = some r' ∧ d.pageId = r'.key ∧
      d.hash = r'.hashKeyType := by
  by_cases hi : i = shardOf r.hashKeyType
  · rw [hi, PoolRun.set_shards_self] at hd
    rw [hi]
    by_cases hh : h = (st.pool.shards (shardOf r.hashKeyType)).fresh
    · rw [hh, hins.new] at hd
      cases hd
      refine ⟨r, ?_, rfl, rfl⟩
      rw [hh, enters, if_pos hf, update_self]
    · rw [hins.entries h hh] at hd
      split_ifs at hd
      exact hok.entered_kept _ hd rfl rfl
  · rw [PoolRun.set_shards_of_ne hi] at hd
    exact hok.entered_kept _ hd rfl rfl

/-- **Every call** keeps handles with the representation they were entered with. -/
lemma Ok.call (hok : st.Ok) (hs : st.call a = some st') : st'.Ok := by
  obtain ⟨pool, hpool, rfl⟩ := Option.map_eq_some_iff.mp hs
  refine ⟨hok.pool.call hpool, ?_⟩
  intro i h d hd
  rcases hok.pool.call_cases hpool with
    ⟨key, hash, charge, s, fl, held, ha, hf, hins, -, rfl⟩ | ⟨j, s, held, rfl, -, hsub, -⟩
  · cases a with
    | flush r charge' =>
        obtain ⟨rfl, rfl, rfl⟩ := PoolCall.lookupInsert.inj ha
        exact hok.entered_flush hf hins hd
    | access r => cases ha
    | release i h => cases ha
    | erase r => cases ha
    | prune i => cases ha
  · by_cases hi : i = j
    · subst hi
      rw [PoolRun.set_shards_self] at hd
      obtain ⟨d₀, hd₀, hsame, -⟩ := hsub h d hd
      exact hok.entered_kept a hd₀ hsame.pageId hsame.hash
    · rw [PoolRun.set_shards_of_ne hi] at hd
      exact hok.entered_kept a hd rfl rfl

lemma ok_of_run {capacity : Fin kNumShards → UInt64} {freelist : List ℕ} {tr : List RepCall}
    (hrun : Run Step (start capacity freelist) tr st) : st.Ok :=
  hrun.invariant (ok_start capacity freelist) fun _ _ _ hok hs => Ok.call hok hs

/-! ## What an access or a flush finds -/

lemma accessed_eq_some_iff {r : KeyRep} {i : Fin kNumShards} {h : ℕ} :
    st.accessed r = some (i, h) ↔
      shardOf r.hashKeyType = i ∧ (st.pool.shards i).find r.key r.hashKeyType = some h := by
  have hlookup (s : LruShard) : (s.lookup r.key r.hashKeyType).1 = s.find r.key r.hashKeyType := by
    cases hf : s.find r.key r.hashKeyType <;> simp [LruShard.lookup, hf]
  rw [accessed, PoolRun.found, hlookup, Option.map_eq_some_iff]
  constructor
  · rintro ⟨h', hf, heq⟩
    obtain ⟨rfl, rfl⟩ := Prod.mk.inj heq
    exact ⟨rfl, hf⟩
  · rintro ⟨rfl, hf⟩
    exact ⟨h, hf, rfl⟩

/-- `LookupInsert` gets a handle that was there just if it finds it. -/
lemma Ok.flushed_eq_iff (hok : st.Ok) {r : KeyRep} {charge : UInt64} {i : Fin kNumShards} {h : ℕ}
    {d : HandleData ℕ} (hd : (st.pool.shards i).entries h = some d) :
    st.flushed r charge = (i, h) ↔
      shardOf r.hashKeyType = i ∧ (st.pool.shards i).find r.key r.hashKeyType = some h := by
  rw [flushed, PoolRun.returned, Prod.mk.injEq]
  refine and_congr_right fun hi => ?_
  rw [hi, LruShard.lookupInsert]
  simp only [PoolRun.insertArgs]
  cases hf : (st.pool.shards i).find r.key r.hashKeyType with
  | some h' => simp
  | none =>
      simp only [reduceCtorEq, iff_false]
      intro heq
      rw [← heq, (hok.pool.shard i).inv.entries_fresh] at hd
      cases hd

/-- The cached handle of a page id is found by the hash it was entered with. -/
lemma Ok.find_iff (hok : st.Ok) {r r' : KeyRep} {i : Fin kNumShards} {h : ℕ}
    (hc : st.Cached r i h) (hkey : r.key = r'.key) :
    shardOf r'.hashKeyType = i ∧ (st.pool.shards i).find r'.key r'.hashKeyType = some h ↔
      r'.hashKeyType = r.hashKeyType := by
  obtain ⟨hr, d, hd, hin⟩ := hc
  obtain ⟨r₀, hr₀, hpage, hhash⟩ := hok.entered i h d hd
  obtain rfl := Option.some.inj (hr₀.symm.trans hr)
  have hshard := hok.pool.shard i
  rw [LruShard.find_eq_some_iff hshard.inv hshard.unique]
  constructor
  · rintro ⟨-, d', hd', -, -, hhash'⟩
    obtain rfl := Option.some.inj (hd.symm.trans hd')
    rw [← hhash', hhash]
  · intro heq
    refine ⟨?_, d, hd, hin, hpage.trans hkey, hhash.trans heq.symm⟩
    rw [heq, ← hhash]
    exact hok.pool.home i h d hd

/-- **Equal page ids meet in the cache** just if they have the same padding: only then have two
representations of one page id the same hash and the same shard, and does every access and every
flush with the second one find the entry, if it is still cached, that a flush with the first one
made. -/
theorem equal_page_ids_meet_iff (r r' : KeyRep) (heq : keyTypeCmp r.key r'.key = true) :
    (r'.hashKeyType = r.hashKeyType ∧ shardOf r'.hashKeyType = shardOf r.hashKeyType ∧
      ∀ capacity freelist tr st, Run Step (start capacity freelist) tr st →
        ∀ i h, st.Cached r i h →
          st.accessed r' = some (i, h) ∧ ∀ charge, st.flushed r' charge = (i, h)) ↔
    r'.padding = r.padding := by
  have hkey := keyTypeCmp_iff.mp heq
  rw [← KeyRep.hashKeyType_eq_iff hkey.symm]
  constructor
  · exact fun h => h.1
  · intro hhash
    refine ⟨hhash, by rw [hhash], ?_⟩
    intro capacity freelist tr st hrun i h hc
    have hok := ok_of_run hrun
    have hfind := (hok.find_iff hc hkey).mpr hhash
    obtain ⟨d, hd, -⟩ := hc.2
    exact ⟨accessed_eq_some_iff.mpr hfind, fun charge => (hok.flushed_eq_iff hd).mpr hfind⟩

/-- The page id 1/1/1, fork 0, block 0, with a first byte of padding. -/
def paddedRep (b : UInt8) : KeyRep :=
  { bytes := [1, 0, 0, 0, 0, 0, 0, 0, 1, 0, 0, 0, 0, 0, 0, 0, 1, 0, 0, 0, 0, 0, 0, 0, 0, 0, 0, 0,
      b, 0, 0, 0, 0, 0, 0, 0, 0, 0, 0, 0]
    length_bytes := rfl }

/-- A flush into an empty pool with room enters the page; an access that looks into another shard
does not find it. -/
lemma flush_start (r : KeyRep) :
    ∃ st, Run Step (start (fun _ => 8) [0]) [.flush r 1] st ∧
      st.Cached r (shardOf r.hashKeyType) 2 ∧
      ∀ r' : KeyRep, shardOf r'.hashKeyType ≠ shardOf r.hashKeyType → st.accessed r' = none := by
  refine ⟨_, .cons rfl .nil, ⟨?_, ?_⟩, ?_⟩
  · rw [enters, if_pos (by rfl)]
    apply update_self
  · have hnew := (LruShard.lookupInsert_spec [0]
      (PoolRun.insertArgs r.key r.hashKeyType 1) (LruShard.ok_init 8) rfl rfl).2.new
    simp only [PoolRun.set_shards_self]
    exact ⟨_, hnew, rfl⟩
  · intro r' hne
    simp only [accessed, PoolRun.found, PoolRun.set_shards_of_ne hne]
    rfl

/-- A page that was flushed is found with the same padding. -/
theorem equal_page_ids_meet_same_padding :
    keyTypeCmp (paddedRep 7).key (paddedRep 7).key = true ∧
      ∃ st, Run Step (start (fun _ => 8) [0]) [.flush (paddedRep 7) 1] st ∧
        st.accessed (paddedRep 7) = some (shardOf (paddedRep 7).hashKeyType, 2) := by
  obtain ⟨st, hrun, hc, -⟩ := flush_start (paddedRep 7)
  have hmeet := (equal_page_ids_meet_iff (paddedRep 7) (paddedRep 7) (by decide)).mpr rfl
  exact ⟨by decide, st, hrun, (hmeet.2.2 _ _ _ st hrun _ _ hc).1⟩

/-- A page that was flushed with padding 0 is not found with padding 1: the hashes are 1006576630
and 703626858, and the shards 29 and 20. -/
theorem flushed_page_not_found :
    keyTypeCmp (paddedRep 0).key (paddedRep 1).key = true ∧
      (paddedRep 0).hashKeyType = 1006576630 ∧ (paddedRep 1).hashKeyType = 703626858 ∧
      ∃ st, Run Step (start (fun _ => 8) [0]) [.flush (paddedRep 0) 1] st ∧
        st.Cached (paddedRep 0) (shardOf (paddedRep 0).hashKeyType) 2 ∧
        st.accessed (paddedRep 1) = none := by
  obtain ⟨st, hrun, hc, hother⟩ := flush_start (paddedRep 0)
  have hne : shardOf (paddedRep 1).hashKeyType ≠ shardOf (paddedRep 0).hashKeyType := by decide
  exact ⟨by decide, by decide, by decide, st, hrun, hc, hother _ hne⟩

end RepPool

end GroundDB
